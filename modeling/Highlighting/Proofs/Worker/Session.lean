import Mathlib
import Highlighting.Proofs.Worker.Queues
import Highlighting.Proofs.Worker.Themes
import Highlighting.Worker.Client

/-! A client and its worker, acting in any order. Whatever the order, the client receives what one
worker answers that handles its requests one after the other. -/

namespace Highlighting

variable {σ : Type} [Engine σ]

/-- The worker of a client handles its oldest request. -/
def Client.work (c : Client σ) : Client σ := { c with channel := c.channel.map Channel.work }

/-- What happens next: the client sends, the worker works, or the client receives. -/
inductive Move where
  | loadTheme (theme : Theme)
  | highlight (job : HighlightJob)
  | tokenize (job : TokenizeJob)
  | work
  | receive
  | tryReceive

/-- The request that a move sends, if `next` is the number of the next job. -/
def Move.request? (next : JobId) : Move → Option Request
  | loadTheme t => some (.theme t)
  | highlight job => some (.highlight next job)
  | tokenize job => some (.tokenize next job)
  | _ => none

/-- The requests that moves send, if `last` is the number of the last job. -/
def requests (last : JobId) : List Move → List Request
  | [] => []
  | m :: rest =>
    let request? := m.request? (last + 1)
    request?.toList ++ requests ((request?.bind Request.id?).getD last) rest

/-- A client with the numbers that it got for its jobs and the responses that it received. -/
structure Session (σ : Type) where
  client : Client σ
  submitted : List JobId
  received : List Response

namespace Session

/-- The client of a new worker. -/
def start (w : Worker σ) : Session σ := ⟨.new w, [], []⟩

/-- One move. -/
def step (s : Session σ) : Move → Session σ
  | .loadTheme t => { s with client := (s.client.loadTheme t).2 }
  | .highlight job =>
    let (id?, client) := s.client.submitHighlight job
    { s with client, submitted := s.submitted ++ id?.toList }
  | .tokenize job =>
    let (id?, client) := s.client.submitTokenize job
    { s with client, submitted := s.submitted ++ id?.toList }
  | .work => { s with client := s.client.work }
  | .receive =>
    match s.client.receive with
    | (.done r, client) => { s with client, received := s.received ++ [r] }
    | (_, client) => { s with client }
  | .tryReceive =>
    match s.client.tryReceive with
    | (.done r?, client) => { s with client, received := s.received ++ r?.toList }
    | (_, client) => { s with client }

/-- Moves in order. -/
def run (w : Worker σ) (moves : List Move) : Session σ := moves.foldl step (start w)

/-! ### What a step keeps -/

/-- The client is connected to a worker that started as `w`, and has sent the requests `sent`. -/
structure Connected (w : Worker σ) (sent : List Request) (s : Session σ) : Prop where
  serves : ∃ channel, s.client.channel = some channel ∧ channel.Serves w sent s.received
  submitted : s.submitted = sent.filterMap Request.id?

variable {w : Worker σ} {sent : List Request} {s : Session σ}

theorem connected_start (w : Worker σ) : Connected w [] (start w) :=
  ⟨⟨_, rfl, Channel.serves_new w⟩, rfl⟩

theorem Connected.submit (h : Connected w sent s) (request : JobId → Request)
    (hid : ∀ id, (request id).id? = some id) :
    (s.client.submit request).2.lastId = s.client.lastId + 1 ∧
      Connected w (sent ++ [request (s.client.lastId + 1)])
        { s with
          client := (s.client.submit request).2
          submitted := s.submitted ++ (s.client.submit request).1.toList } := by
  obtain ⟨channel, hchannel, serves⟩ := h.serves
  have hsubmit : s.client.submit request = (some (s.client.lastId + 1),
      ⟨some (channel.send (request (s.client.lastId + 1))), s.client.lastId + 1⟩) := by
    unfold Client.submit Client.send
    simp [hchannel]
  rw [hsubmit]
  refine ⟨rfl, ⟨_, rfl, serves.send _⟩, ?_⟩
  simp [h.submitted, hid]

/-- One move keeps the client connected, with the request that it sends. -/
theorem Connected.step (h : Connected w sent s) (m : Move) :
    Connected w (sent ++ (m.request? (s.client.lastId + 1)).toList) (s.step m) ∧
      (s.step m).client.lastId =
        ((m.request? (s.client.lastId + 1)).bind Request.id?).getD s.client.lastId := by
  obtain ⟨channel, hchannel, serves⟩ := h.serves
  cases m with
  | loadTheme t =>
    have hsend : s.client.loadTheme t =
        (true, { s.client with channel := some (channel.send (.theme t)) }) := by
      unfold Client.loadTheme Client.send
      rw [hchannel]
    simp only [Session.step, hsend]
    refine ⟨⟨⟨_, rfl, serves.send (.theme t)⟩, ?_⟩, rfl⟩
    simp [h.submitted, Move.request?, Request.id?]
  | highlight job =>
    obtain ⟨hlast, hconnected⟩ := h.submit (fun id => .highlight id job) fun _ => rfl
    exact ⟨hconnected, hlast⟩
  | tokenize job =>
    obtain ⟨hlast, hconnected⟩ := h.submit (fun id => .tokenize id job) fun _ => rfl
    exact ⟨hconnected, hlast⟩
  | work =>
    simp only [Session.step, Client.work, hchannel, Option.map_some, Move.request?,
      Option.toList_none, List.append_nil]
    exact ⟨⟨⟨channel.work, rfl, serves.work⟩, h.submitted⟩, rfl⟩
  | receive =>
    simp only [Session.step, Client.receive, Client.waitOn, hchannel, Move.request?,
      Option.toList_none, List.append_nil]
    cases hwait : channel.await? with
    | none => exact ⟨⟨⟨channel, hchannel, serves⟩, h.submitted⟩, rfl⟩
    | some next => exact ⟨⟨⟨next.2, rfl, serves.await? hwait⟩, h.submitted⟩, rfl⟩
  | tryReceive =>
    simp only [Session.step, Client.tryReceive, hchannel, Move.request?, Option.toList_none,
      List.append_nil]
    cases hready : channel.receive? with
    | none =>
      refine ⟨⟨⟨channel, hchannel, ?_⟩, h.submitted⟩, rfl⟩
      simpa using serves
    | some next => exact ⟨⟨⟨next.2, rfl, serves.receive? hready⟩, h.submitted⟩, rfl⟩

/-- So do moves in order. -/
theorem Connected.foldl (h : Connected w sent s) (moves : List Move) :
    Connected w (sent ++ requests s.client.lastId moves) (moves.foldl Session.step s) := by
  induction moves generalizing s sent with
  | nil => simpa [requests] using h
  | cons m rest ih =>
    obtain ⟨hstep, hlast⟩ := h.step m
    have hrest := ih hstep
    rw [hlast, List.append_assoc] at hrest
    exact hrest

theorem connected_run (w : Worker σ) (moves : List Move) :
    Connected w (requests 0 moves) (run w moves) := (connected_start w).foldl moves

/-! ### The numbers of jobs -/

/-- What a move sends has the next number or none. -/
theorem bind_id_request? (next : JobId) (m : Move) :
    (m.request? next).bind Request.id? = none ∨
      (m.request? next).bind Request.id? = some next := by
  cases m with
  | highlight job => exact .inr rfl
  | tokenize job => exact .inr rfl
  | _ => exact .inl rfl

theorem filterMap_id_requests_cons (last : JobId) (m : Move) (rest : List Move) :
    (requests last (m :: rest)).filterMap Request.id? =
      ((m.request? (last + 1)).bind Request.id?).toList ++
        (requests (((m.request? (last + 1)).bind Request.id?).getD last) rest).filterMap
          Request.id? := by
  rw [requests, List.filterMap_append]
  cases m with
  | highlight job => rfl
  | tokenize job => rfl
  | _ => rfl

/-- Jobs are numbered on from the last one. -/
theorem filterMap_id_requests (last : Nat) (moves : List Move) :
    ∃ count, (requests (UInt64.ofNat last) moves).filterMap Request.id? =
      (List.range' (last + 1) count).map UInt64.ofNat := by
  induction moves generalizing last with
  | nil => exact ⟨0, rfl⟩
  | cons m rest ih =>
    have hnext : UInt64.ofNat last + 1 = UInt64.ofNat (last + 1) := (UInt64.ofNat_add last 1).symm
    rw [filterMap_id_requests_cons]
    rcases bind_id_request? (UInt64.ofNat last + 1) m with hid | hid
    · rw [hid]
      exact ih last
    · obtain ⟨count, hcount⟩ := ih (last + 1)
      refine ⟨count + 1, ?_⟩
      rw [hid, Option.getD_some, hnext, hcount, List.range'_succ]
      rfl

/-- The numbers go up as long as there are fewer than can be told apart. -/
theorem pairwise_map_ofNat {first count : Nat} (h : first + count ≤ 2 ^ 64) :
    ((List.range' first count).map UInt64.ofNat).Pairwise (· < ·) := by
  rw [List.pairwise_map]
  refine List.Pairwise.imp_of_mem (fun {a b} _ hb hlt => ?_) List.pairwise_lt_range'
  have hrange := List.mem_range'_1.mp hb
  have hsize : UInt64.size = 2 ^ 64 := rfl
  rw [UInt64.lt_iff_toNat_lt, UInt64.toNat_ofNat_of_lt' (by omega),
    UInt64.toNat_ofNat_of_lt' (by omega)]
  exact hlt

/-! ### What is received in the end -/

theorem Connected.isPrefix_received (h : Connected w sent s) :
    s.received <+: (w.handleAll sent).1 := by
  obtain ⟨channel, -, serves⟩ := h.serves
  exact ⟨channel.coming, serves.received_append_coming⟩

/-- Where a response is to come, receiving yields the next one. -/
theorem Connected.length_receive (h : Connected w sent s)
    (hlt : s.received.length < (w.handleAll sent).1.length) :
    (s.step .receive).received.length = s.received.length + 1 := by
  obtain ⟨channel, hchannel, serves⟩ := h.serves
  have htotal := serves.received_append_coming
  cases hcoming : channel.coming with
  | nil =>
    rw [hcoming, List.append_nil] at htotal
    rw [htotal] at hlt
    exact absurd hlt (Nat.lt_irrefl _)
  | cons r rest =>
    obtain ⟨next, hnext⟩ := Channel.await?_of_coming hcoming
    simp [Session.step, Client.receive, Client.waitOn, hchannel, hnext]

/-- Receiving as often as responses are missing yields all of them. -/
theorem Connected.received_replicate (h : Connected w sent s) {missing : Nat}
    (hmissing : s.received.length + missing = (w.handleAll sent).1.length) :
    ((List.replicate missing Move.receive).foldl Session.step s).received =
      (w.handleAll sent).1 := by
  induction missing generalizing s with
  | zero => exact h.isPrefix_received.eq_of_length hmissing
  | succ missing ih =>
    have hreceived := h.length_receive (by omega)
    have hstep : Connected w sent (s.step .receive) := by
      simpa [Move.request?] using (h.step .receive).1
    rw [List.replicate_succ, List.foldl_cons]
    exact ih hstep (by omega)

end Session

/-- However the moves of a client and its worker are ordered, what the client has received is the
beginning of what one worker answers that handles the requests one after the other, and the channel
holds the rest. Each job has one answer, under the number that the client got for it, in the order
of submission; themes have none. The numbers go up while there are fewer than `2 ^ 64`. A request
is handled in the state that the requests before it lead to, so under the last theme among them.
Nothing is lost: receiving as often as answers are missing yields all of them. -/
theorem Session.refines_handleAll (w : Worker σ) (moves : List Move) :
    let s := run w moves
    let sent := requests 0 moves
    let answers := (w.handleAll sent).1
    s.received <+: answers ∧
      (∃ channel, s.client.channel = some channel ∧ channel.Serves w sent s.received) ∧
      answers.map Response.id = sent.filterMap Request.id? ∧
      s.submitted = sent.filterMap Request.id? ∧
      (s.submitted.length < 2 ^ 64 → s.submitted.Pairwise (· < ·)) ∧
      (∀ before r after, sent = before ++ r :: after →
        answers = (w.handleAll before).1 ++ ((w.handleAll before).2.handle r).1.toList ++
          (((w.handleAll before).2.handle r).2.handleAll after).1 ∧
        ∀ v : ThemeView σ,
          v.theme (w.handleAll before).2.engine = (lastTheme? before).getD (v.theme w.engine)) ∧
      (run w (moves ++ List.replicate (answers.length - s.received.length) .receive)).received =
        answers := by
  intro s sent answers
  have connected : Connected w sent s := connected_run w moves
  have hbegins := connected.isPrefix_received
  refine ⟨hbegins, connected.serves, w.map_id_handleAll sent, connected.submitted, ?_, ?_, ?_⟩
  · intro hlength
    obtain ⟨count, hcount⟩ := filterMap_id_requests 0 moves
    have hids : s.submitted = (List.range' (0 + 1) count).map UInt64.ofNat :=
      connected.submitted.trans hcount
    rw [hids, List.length_map, List.length_range'] at hlength
    rw [hids]
    exact pairwise_map_ofNat (by omega)
  · intro before r after hsent
    refine ⟨?_, fun v => v.theme_handleAll w before⟩
    change (w.handleAll sent).1 = _
    rw [hsent, Worker.handleAll_append, Worker.handleAll_cons, List.append_assoc]
  · have hmissing : s.received.length + (answers.length - s.received.length) = answers.length := by
      have hle : s.received.length ≤ answers.length := hbegins.length_le
      omega
    unfold run
    rw [List.foldl_append]
    exact connected.received_replicate hmissing

/-- One job crashes the engine, a theme follows, and the second job is still with the worker when
the client has received the first answer. -/
theorem Session.refines_handleAll_crash :
    let w : Worker WordEngine := ⟨⟨[], [], .empty⟩, .empty, 600⟩
    let moves : List Move := [.highlight ⟨"@panic@", plainText, none, false, none⟩,
      .loadTheme ⟨.single "word" "name"⟩, .work, .highlight ⟨"x", plainText, none, true, none⟩,
      .tryReceive, .work]
    (run w moves).submitted.length < 2 ^ 64 ∧
      (run w moves).submitted.Pairwise (· < ·) ∧
      (run w moves).received.map Response.id = [1] ∧
      (run w (moves ++ [.receive])).received.map Response.id = [1, 2] := by
  intro w moves
  obtain ⟨-, -, hids, hsubmitted, hpairwise, -, hall⟩ := refines_handleAll w moves
  have hsent : (requests 0 moves).filterMap Request.id? = [1, 2] := rfl
  have hlength : (run w moves).submitted.length < 2 ^ 64 := by
    rw [hsubmitted, hsent]
    decide
  have hreceived : (run w moves).received.map Response.id = [1] := by
    obtain ⟨r, hr, hid⟩ := Option.map_eq_some_iff.mp
      (w.map_id_handle (.highlight 1 ⟨"@panic@", plainText, none, false, none⟩))
    have hrun : (run w moves).received = [r] := by
      simp [run, moves, start, step, Client.new, Client.submitHighlight, Client.submit,
        Client.loadTheme, Client.send, Client.work, Client.tryReceive, Channel.new, Channel.send,
        Channel.work, Channel.receive?, hr]
    rw [hrun, List.map_singleton, hid]
  refine ⟨hlength, hpairwise hlength, hreceived, ?_⟩
  have hmissing : (w.handleAll (requests 0 moves)).1.length - (run w moves).received.length =
      1 := by
    rw [← List.length_map Response.id, hids, hsent, ← List.length_map Response.id, hreceived]
    rfl
  rw [hmissing] at hall
  rw [← hsent, ← hids, ← hall]
  rfl

end Highlighting
