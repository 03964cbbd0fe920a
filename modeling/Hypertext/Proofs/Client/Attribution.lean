/-
No response is given to a request that it does not answer. Whatever sessions and servers do, and however the bytes are
cut, a request whose server has sent nothing but the responses to the requests on its connection has its own response
or none, and a connection is used again only after a response that was complete and allowed it.
-/
import Hypertext.Proofs.Client.Alone

namespace Hypertext

/-- The response to a request was received, its body had an end of its own, nothing was taken behind it, and neither
its fields nor its version say that the connection closes. -/
def Errand.Reusable (config : ClientConfig) (e : Errand) : Prop :=
  ∃ received head framing wire body, e.state = .done (.ok received) ∧
    ResponseReader.Opens (e.request.method == .head) e.taken head framing wire ∧ framing ≠ .untilClose ∧
    framing.decode config.maxResponseBytes wire = .ok (some (body, [])) ∧
    received.response.headers.hasToken "connection" "close" = false ∧
    (received.response.version = .http11 ∨ received.response.headers.hasToken "connection" "keep-alive" = true)

namespace Correspondence

variable {config : ClientConfig} {c : Correspondence} {before : List Errand} {e : Errand}

theorem Stands.reusable (h : Stands config before e) (hkept : e.Kept) : e.Reusable config := by
  obtain ⟨received, hdone, hmay⟩ := hkept
  obtain ⟨closed, htook⟩ := h.took received hdone
  simp only [Session.mayKeep, ClientResponse.allowsReuse, Bool.and_eq_true, Bool.not_eq_true', Bool.or_eq_true] at hmay
  obtain ⟨hspent, hopen, hkeeps⟩ := hmay
  obtain ⟨head, framing, wire, body, hopens, hends, hbody⟩ := htook.whole hspent
  refine ⟨received, head, framing, wire, body, hdone, hopens, hends, hbody, hopen, hkeeps.imp_left fun hversion => ?_⟩
  cases hv : received.response.version with
  | http10 =>
    rw [hv] at hversion
    cases hversion
  | http11 => rfl

/-- Whatever has happened, each request was made on a connection of its own target, on which all that had arrived had
been read by earlier requests, and each of these had a response after which the connection can be used again; and
if the server answers these requests and this one, then the response to it is the final one that the server sends for it.
What a session makes of one more request while nobody else acts can happen, and its response is that of the request
that was made last. -/
theorem own_responses (h : Leads config (new config) c) :
    (∀ before e after, c.errands = before ++ e :: after →
      e.stream.target = e.request.target ∧ e.found = takenOn e.stream before ∧
      (∀ x ∈ before, x.stream = e.stream → x.Reusable config) ∧
      ∀ received (w : WireResponse), e.state = .done (.ok received) → Served e.stream before → w.bytes = e.sends →
        w.Answers e.request.method → w.Brings config.maxResponseBytes received.response) ∧
    ∀ net, c.Shows net → ∀ method url headers body, ∃ d, Leads config (new config) d ∧
      (Session.request net method url headers body ⟨config, c.pool⟩).2 = ⟨config, d.pool⟩ ∧ c.errands <+: d.errands ∧
      ∀ response, (Session.request net method url headers body ⟨config, c.pool⟩).1 = .ok response →
        ∃ u target, Target.parse url = .ok (u, target) ∧
          Brought net config.userAgent ⟨method, u, target, headers, body⟩ response c d := by
  have hc := h.sound (sound_new config)
  constructor
  · intro before e after hsplit
    have hstands := hc.errands before e after hsplit
    refine ⟨hstands.own, hstands.found, ?_, hstands.brought⟩
    intro x hx hs
    obtain ⟨first, others, rfl⟩ := List.append_of_mem hx
    have hxstands := hc.errands first x (others ++ e :: after) (by rw [hsplit, List.append_assoc, List.cons_append])
    exact hxstands.reusable (hstands.kept x hx hs)
  · intro net hnet method url headers body
    obtain ⟨d, hleads, hd⟩ := leads_of_request hc hnet method url headers body
    exact ⟨d, h.trans hleads, hd⟩

/-! ## A connection that is used again -/

namespace Reuse

def target : Target := ⟨"http", "localhost", 8080⟩

/-- The request that is made again and again. -/
def outgoing : Outgoing := ⟨.get, ⟨"http", "localhost", some 8080, "/", none⟩, target, .empty, []⟩

/-- The connection that all of them are made on. -/
def stream : PooledStream := ⟨0, target⟩

def reader : ResponseReader := .new (outgoing.method == .head) ClientConfig.default.maxResponseBytes

/-- What the server sends for the first request. -/
def bare : Bytes := Bytes.ofText "HTTP/1.1 204 No Content\r\n\r\n"

/-- What the server sends for the second request. -/
def reply : Bytes :=
  Bytes.ofText "HTTP/1.1 100 Continue\r\n\r\nHTTP/1.1 200 OK\r\nContent-Length: 2\r\n\r\nok"

/-- The response to the first request. -/
def noContent : Received := ⟨⟨204, .http11, ⟨[]⟩, []⟩, false⟩

/-- The response to the second request. -/
def content : Received := ⟨⟨200, .http11, ⟨[("Content-Length", "2")]⟩, Bytes.ofText "ok"⟩, false⟩

def first : Errand := ⟨outgoing, stream, bare, [], bare, .done (.ok noContent)⟩

def second : Errand := ⟨outgoing, stream, reply, bare, reply, .done (.ok content)⟩

/-- The connection is idle, and the one who put it back has not left yet. -/
def idlePool : Pool := ⟨8, [⟨target, 7, [], [], [], [stream], [], 1⟩], 2, 1, []⟩

theorem feed_bare : reader.feed bare = .done (.ok noContent) := by rfl

theorem feed_reply : reader.feed reply = .done (.ok content) := by rfl

set_option maxRecDepth 2000 in
/-- Both requests are made one after the other, and all that the server sends is read. -/
theorem leads_to_second :
    ∃ lines : PooledStream → Line,
      Leads .default (new .default) ⟨idlePool, [outgoing, outgoing], lines, [first, second]⟩ ∧
      ∀ s, (lines s).coming = [] ∧ (lines s).unread = [] ∧ (lines s).ended = false := by
  let first₀ : Errand := ⟨outgoing, stream, bare, [], [], .waiting reader⟩
  let second₀ : Errand := ⟨outgoing, stream, reply, bare, [], .waiting reader⟩
  let lines₁ : PooledStream → Line := Function.update (fun _ => .fresh) stream ⟨bare, [], [], false⟩
  let lines₂ : PooledStream → Line := Function.update lines₁ stream ⟨[], bare, bare, false⟩
  let lines₃ : PooledStream → Line := Function.update lines₂ stream ⟨[], bare, [], false⟩
  let lines₄ : PooledStream → Line := Function.update lines₃ stream ⟨reply, bare, [], false⟩
  let lines₅ : PooledStream → Line := Function.update lines₄ stream ⟨[], bare ++ reply, reply, false⟩
  let lines₆ : PooledStream → Line := Function.update lines₅ stream ⟨[], bare ++ reply, [], false⟩
  -- the first request is given a new connection and has its response
  have h1 : Leads .default (new .default)
      ⟨⟨8, [⟨target, 7, [], [0], [], [], [], 0⟩], 1, 0, []⟩, [outgoing], fun _ => .fresh, []⟩ := .single (.ask outgoing)
  have h2 : Leads .default (new .default)
      ⟨⟨8, [⟨target, 7, [], [], [0], [], [], 0⟩], 1, 0, []⟩, [outgoing], fun _ => .fresh, []⟩ :=
    h1.tail (.tend (.beginConnect (t := target) (n := 0) rfl (by decide) rfl))
  have h3 : Leads .default (new .default)
      ⟨⟨8, [⟨target, 7, [], [], [], [], [stream], 0⟩], 1, 1, []⟩, [outgoing], lines₁, [first₀]⟩ :=
    h2.tail (.connect (t := target) (n := 0) bare rfl (by decide) rfl)
  let c₄ : Correspondence :=
    ⟨⟨8, [⟨target, 7, [], [], [], [], [stream], 0⟩], 1, 1, []⟩, [outgoing], lines₂, [first₀]⟩
  have h4 : Leads .default (new .default) c₄ := h3.tail (.deliver stream (List.append_nil bare).symm)
  have h5 : Leads .default (new .default)
      ⟨⟨8, [⟨target, 7, [], [], [], [stream], [], 1⟩], 1, 1, []⟩, [outgoing], lines₃, [first]⟩ := by
    have hread : Step .default c₄ (c₄.proceed [] first₀ [] bare [] (reader.feed bare)) :=
      .read rfl rfl (by decide) (by decide) (List.append_nil bare).symm
    rw [feed_bare] at hread
    exact h4.tail hread
  have h6 : Leads .default (new .default)
      ⟨⟨8, [⟨target, 8, [], [], [], [stream], [], 0⟩], 1, 1, []⟩, [outgoing], lines₃, [first]⟩ :=
    h5.tail (.tend (.leave (t := target) rfl (by decide)))
  -- the second request finds the connection idle
  have h7 : Leads .default (new .default)
      ⟨⟨8, [⟨target, 7, [], [1], [], [stream], [], 0⟩], 2, 1, []⟩, [outgoing, outgoing], lines₃, [first]⟩ :=
    h6.tail (.ask outgoing)
  have h8 : Leads .default (new .default)
      ⟨⟨8, [⟨target, 7, [], [], [], [], [stream], 0⟩], 2, 1, []⟩, [outgoing, outgoing], lines₄, [first, second₀]⟩ :=
    h7.tail (.reuse (t := target) (n := 1) (s := stream) reply rfl (by decide) rfl rfl rfl rfl)
  let c₉ : Correspondence :=
    ⟨⟨8, [⟨target, 7, [], [], [], [], [stream], 0⟩], 2, 1, []⟩, [outgoing, outgoing], lines₅, [first, second₀]⟩
  have h9 : Leads .default (new .default) c₉ := h8.tail (.deliver stream (List.append_nil reply).symm)
  refine ⟨lines₆, ?_, fun s => ?_⟩
  · have hread : Step .default c₉ (c₉.proceed [first] second₀ [] reply [] (reader.feed reply)) :=
      .read rfl rfl (by decide) (by decide) (List.append_nil reply).symm
    rw [feed_reply] at hread
    exact h9.tail hread
  · by_cases hs : s = stream
    · rw [hs]
      exact ⟨rfl, rfl, rfl⟩
    · simp only [lines₆, lines₅, lines₄, lines₃, lines₂, lines₁, Function.update_of_ne hs, Line.fresh, and_self]

set_option maxRecDepth 2000 in
/-- The first request is answered. -/
theorem served : Served stream [first] := by
  intro e he _
  rw [List.mem_singleton.1 he]
  let head : RawHead := ⟨[], Bytes.ofText "HTTP/1.1 204 No Content", Bytes.crlf, [], Bytes.crlf,
    by decide, by decide, by decide, by decide, by decide⟩
  refine ⟨⟨[], head, .http11, 204, [], []⟩, rfl, fun h hh => absurd hh List.not_mem_nil, ?_, rfl, false, .none ?_⟩
  · exact ⟨[50, 48, 52], Bytes.ofText " No Content", by decide, rfl, by decide, by decide, rfl⟩
  · exact .inr (.inr (.inl rfl))

set_option maxRecDepth 2000 in
/-- The reply to the second request in its parts. -/
def wire : WireResponse where
  interim := [⟨[], Bytes.ofText "HTTP/1.1 100 Continue", Bytes.crlf, [], Bytes.crlf,
    by decide, by decide, by decide, by decide, by decide⟩]
  head := ⟨[], Bytes.ofText "HTTP/1.1 200 OK", Bytes.crlf,
    [⟨Bytes.ofText "Content-Length", Bytes.ofText " 2", Bytes.crlf, by decide, by decide, by decide, by decide⟩],
    Bytes.crlf, by decide, by decide, by decide, by decide, by decide⟩
  version := .http11
  code := 200
  body := Bytes.ofText "ok"
  content := Bytes.ofText "ok"

set_option maxRecDepth 2000 in
theorem wire_answers : wire.Answers .get := by
  have hframed : ProperBody .get 200 ⟨[("Content-Length", "2")]⟩ false (Bytes.ofText "ok") (Bytes.ofText "ok") := by
    refine .length (by unfold Method.Bodiless; decide) (by decide) ⟨by decide, ?_⟩
    intro v hv
    have hv : v ∈ ["2"] := hv
    rw [List.mem_singleton.1 hv]
    exact ⟨by decide, by decide, by decide⟩
  refine ⟨?_, ⟨[50, 48, 48], Bytes.ofText " OK", by decide, rfl, by decide, by decide, rfl⟩, rfl, false, hframed⟩
  intro h hh
  rw [List.mem_singleton.1 hh]
  exact ⟨.http11, 100, ⟨[49, 48, 48], Bytes.ofText " Continue", by decide, rfl, by decide, by decide, rfl⟩, rfl⟩

/-- A network on which the server sends the reply once more. -/
def network : Network := ⟨fun _ => .connected, fun _ => false, fun _ _ => ⟨[reply], none⟩⟩

/-- The network shows every state in which this pool has read all that was sent. -/
theorem shows_of_quiet {lines : PooledStream → Line}
    (hlines : ∀ s, (lines s).coming = [] ∧ (lines s).unread = [] ∧ (lines s).ended = false) (asked : List Outgoing)
    (errands : List Errand) : Correspondence.Shows network ⟨idlePool, asked, lines, errands⟩ := by
  intro s _ _
  obtain ⟨hcoming, hunread, hlasts⟩ := hlines s
  refine ⟨hunread, hlasts, fun sent => ?_⟩
  rw [hcoming]
  exact List.nil_prefix

theorem request_idlePool : (Session.request network .get "http://localhost:8080/" .empty [] ⟨.default, idlePool⟩).1 =
    .ok content.response := by rfl

end Reuse

/-- A connection is used for two requests, and the second has the response that is sent for it, which comes behind an
interim one. A session that makes one more request over a network that shows this state is told what the network brings
for that. -/
theorem own_responses_of_reuse : ∃ (c : Correspondence) (a b : Errand) (received : Received) (w : WireResponse),
    Leads ClientConfig.default (new ClientConfig.default) c ∧ c.errands = [a, b] ∧ a.stream = b.stream ∧
      a.sends = Bytes.ofText "HTTP/1.1 204 No Content\r\n\r\n" ∧
      b.sends = Bytes.ofText "HTTP/1.1 100 Continue\r\n\r\nHTTP/1.1 200 OK\r\nContent-Length: 2\r\n\r\nok" ∧
      b.state = .done (.ok received) ∧ a.Reusable ClientConfig.default ∧ b.found = a.taken ∧ w.bytes = b.sends ∧
      w.Answers b.request.method ∧ w.Brings ClientConfig.default.maxResponseBytes received.response ∧
      ∃ (net : Network) (d : Correspondence) (e : Errand) (third : Received), c.Shows net ∧
        Leads ClientConfig.default (new ClientConfig.default) d ∧ d.errands = [a, b, e] ∧ e.sends = b.sends ∧
        e.state = .done (.ok third) ∧
        Session.request net .get "http://localhost:8080/" .empty [] ⟨ClientConfig.default, c.pool⟩ =
          (.ok third.response, ⟨ClientConfig.default, d.pool⟩) := by
  obtain ⟨lines, hleads, hlines⟩ := Reuse.leads_to_second
  obtain ⟨hall, hrequest⟩ := own_responses hleads
  obtain ⟨-, hfound, hreusable, hbrought⟩ := hall [Reuse.first] Reuse.second [] rfl
  have hbytes : Reuse.wire.bytes = Reuse.reply := by rfl
  have hbrings : Reuse.wire.Brings ClientConfig.default.maxResponseBytes Reuse.content.response :=
    hbrought Reuse.content Reuse.wire rfl Reuse.served hbytes Reuse.wire_answers
  refine ⟨_, Reuse.first, Reuse.second, Reuse.content, Reuse.wire, hleads, rfl, rfl, rfl, rfl, rfl,
    hreusable Reuse.first (List.mem_singleton_self _) rfl, hfound, hbytes, Reuse.wire_answers, hbrings, ?_⟩
  have hshows := Reuse.shows_of_quiet hlines [Reuse.outgoing, Reuse.outgoing] [Reuse.first, Reuse.second]
  obtain ⟨d, hd, hsession, -, hmade⟩ := hrequest Reuse.network hshows .get "http://localhost:8080/" .empty []
  obtain ⟨u, t, -, e, third, herrands, -, hstate, hthird, due, hdue, hsends⟩ := hmade _ Reuse.request_idlePool
  -- nothing was still to come, so that all that the network brings is sent for this request
  have hnothing : due = [] := hdue.elim id fun h => h.trans (hlines e.stream).1
  rw [hnothing, List.nil_append] at hsends
  exact ⟨Reuse.network, d, e, third, hshows, hd, herrands, hsends.trans (List.append_nil Reuse.reply), hstate,
    Prod.ext (Reuse.request_idlePool.trans (congrArg Except.ok hthird.symm)) hsession⟩

end Correspondence

end Hypertext
