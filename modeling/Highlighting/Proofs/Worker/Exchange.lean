import Mathlib
import Highlighting.Proofs.Worker.Session
import Highlighting.Proofs.Worker.Waiting

/-! A client with all of its calls, those that block included. A call that blocks reads until it has
its own response, so some responses are read and never handed to the caller. -/

namespace Highlighting

variable {σ : Type} [Engine σ]

/-- A call of a client, or a step of its worker. -/
inductive Call where
  | move (m : Move)
  | waitFor (id : JobId)
  | highlight (value language : String) (options : HighlightOptions)
  | tokenizeHunks (hunks : List Hunk) (language : String) (whitespace : Bool)

namespace Call

/-- The request that a call sends, if `next` is the number of the next job. -/
def request? (next : JobId) : Call → Option Request
  | move m => m.request? next
  | waitFor _ => none
  | highlight value language options => some (.highlight next (options.job value language))
  | tokenizeHunks hunks language whitespace => some (.tokenize next ⟨hunks, language, whitespace⟩)

/-- The responses that a call hands to its caller, and the client after it. -/
def perform (c : Client σ) : Call → List Response × Client σ
  | move m =>
    let s := Session.step ⟨c, [], []⟩ m
    (s.received, s.client)
  | waitFor id =>
    match c.waitFor id with
    | (.done r, c) => ([r], c)
    | (_, c) => ([], c)
  | highlight value language options => ([], (c.highlight value language options).2)
  | tokenizeHunks hunks language whitespace =>
    ([], (c.tokenizeHunks hunks language whitespace).2)

theorem bind_id_request? (next : JobId) (c : Call) :
    (c.request? next).bind Request.id? = none ∨ (c.request? next).bind Request.id? = some next := by
  cases c with
  | move m => exact Session.bind_id_request? next m
  | waitFor id => exact .inl rfl
  | highlight value language options => exact .inr rfl
  | tokenizeHunks hunks language whitespace => exact .inr rfl

end Call

/-- A client with the requests that it has sent and the responses that it has handed out. -/
structure Exchange (σ : Type) where
  client : Client σ
  sent : List Request
  handed : List Response

namespace Exchange

def start (w : Worker σ) : Exchange σ := ⟨.new w, [], []⟩

def call (e : Exchange σ) (c : Call) : Exchange σ :=
  let (handed, client) := c.perform e.client
  ⟨client, e.sent ++ (c.request? (e.client.lastId + 1)).toList, e.handed ++ handed⟩

/-- Calls in order. -/
def run (w : Worker σ) (calls : List Call) : Exchange σ := calls.foldl call (start w)

end Exchange

/-! ### What one call does -/

/-- What a move does to the client does not depend on what the client got before. -/
theorem Session.step_frame (c : Client σ) (ids : List JobId) (read : List Response) (m : Move) :
    (step ⟨c, ids, read⟩ m).client = (step ⟨c, [], []⟩ m).client ∧
      (step ⟨c, ids, read⟩ m).received = read ++ (step ⟨c, [], []⟩ m).received := by
  cases m with
  | receive =>
    unfold step
    dsimp only
    rcases c.receive with ⟨_ | _ | _, _⟩ <;> simp
  | tryReceive =>
    unfold step
    dsimp only
    rcases c.tryReceive with ⟨_ | _ | _, _⟩ <;> simp
  | _ => exact ⟨rfl, (List.append_nil read).symm⟩

namespace Client

variable {c : Client σ} {channel last : Channel σ} {r : Response}

theorem run_eq (request : JobId → Request) (hchannel : c.channel = some channel)
    (hwait : (channel.send (request (c.lastId + 1))).awaitJob? (c.lastId + 1) = some (r, last)) :
    c.run request = (.done (c.lastId + 1, r), ⟨some last, c.lastId + 1⟩) := by
  unfold run submit send waitFor waitOn
  simp [hchannel, hwait]

theorem highlight_snd (c : Client σ) (value language : String) (options : HighlightOptions) :
    (c.highlight value language options).2 =
      (c.run fun id => .highlight id (options.job value language)).2 := by
  unfold highlight
  rcases c.run fun id => .highlight id (options.job value language) with ⟨_ | _ | _, next⟩ <;> rfl

theorem tokenizeHunks_snd (c : Client σ) (hunks : List Hunk) (language : String)
    (whitespace : Bool) :
    (c.tokenizeHunks hunks language whitespace).2 =
      (c.run fun id => .tokenize id ⟨hunks, language, whitespace⟩).2 := by
  unfold tokenizeHunks
  rcases c.run fun id => .tokenize id ⟨hunks, language, whitespace⟩ with ⟨_ | _ | _, next⟩ <;> rfl

end Client

namespace Channel

variable {w : Worker σ} {sent : List Request} {read : List Response} {c : Channel σ}
  {request : Request} {id : JobId}

theorem Serves.map_id_coming (h : c.Serves w sent read) :
    read.map Response.id ++ c.coming.map Response.id = sent.filterMap Request.id? := by
  rw [← List.map_append, h.received_append_coming, Worker.map_id_handleAll]

/-- A worker that handles what waits is where it gets with all requests in order. -/
theorem Serves.worker_eq (h : c.Serves w sent read) :
    (c.worker.handleAll c.requests).2 = (w.handleAll sent).2 := by
  obtain ⟨taken, rfl, hanswers⟩ := h
  rw [Worker.handleAll_append, hanswers]

theorem Serves.coming_send (h : c.Serves w sent read) (request : Request) :
    (c.send request).coming = c.coming ++ ((w.handleAll sent).2.handle request).1.toList := by
  rw [← h.worker_eq]
  unfold coming Channel.send
  simp [Worker.handleAll_append, Worker.handleAll]

/-- The response to the job that was sent last is to come, after all others. -/
theorem Serves.coming_send_job (h : c.Serves w sent read) (hid : request.id? = some id) :
    ∃ r, ((w.handleAll sent).2.handle request).1 = some r ∧ r.id = id ∧
      (c.send request).coming = c.coming ++ [r] := by
  have hanswer := (w.handleAll sent).2.map_id_handle request
  rw [hid] at hanswer
  obtain ⟨r, hr, hrid⟩ := Option.map_eq_some_iff.mp hanswer
  refine ⟨r, hr, hrid, ?_⟩
  rw [h.coming_send, hr]
  rfl

theorem Serves.awaitJob?_send (h : c.Serves w sent read) (hid : request.id? = some id) :
    ∃ r last, (c.send request).awaitJob? id = some (r, last) := by
  obtain ⟨r, -, hrid, hcoming⟩ := h.coming_send_job hid
  exact awaitJob?_of_coming ⟨r, by simp [hcoming], hrid⟩

end Channel

/-- The client is connected to a worker that started as `w`, to which it has sent `sent`, and has
read the responses `read`. -/
def Client.Attached (c : Client σ) (w : Worker σ) (sent : List Request) (read : List Response) :
    Prop :=
  ∃ channel, c.channel = some channel ∧ channel.Serves w sent read

variable {w : Worker σ} {sent : List Request} {read : List Response} {c : Client σ}

theorem Client.Attached.run (h : c.Attached w sent read) (request : JobId → Request)
    (hid : ∀ id, (request id).id? = some id) :
    ∃ dropped, (c.run request).2.lastId = c.lastId + 1 ∧
      (c.run request).2.Attached w (sent ++ [request (c.lastId + 1)]) (read ++ dropped) := by
  obtain ⟨channel, hchannel, serves⟩ := h
  obtain ⟨r, last, hwait⟩ := serves.awaitJob?_send (hid (c.lastId + 1))
  obtain ⟨dropped, hwaits⟩ := Channel.waits_of_awaitJob? hwait
  rw [run_eq request hchannel hwait]
  refine ⟨dropped ++ [r], rfl, last, rfl, ?_⟩
  rw [← List.append_assoc]
  exact (serves.send _).waits hwaits

/-- After one call the client is still connected, with the request that the call sends, and what the
call hands out has been read. -/
theorem Client.Attached.perform (h : c.Attached w sent read) (call : Call) :
    ∃ more, (call.perform c).1 ⊆ more ∧
      (call.perform c).2.Attached w (sent ++ (call.request? (c.lastId + 1)).toList)
        (read ++ more) ∧
      (call.perform c).2.lastId =
        ((call.request? (c.lastId + 1)).bind Request.id?).getD c.lastId := by
  cases call with
  | move m =>
    have hconnected : Session.Connected w sent ⟨c, sent.filterMap Request.id?, read⟩ := ⟨h, rfl⟩
    obtain ⟨hstep, hlast⟩ := hconnected.step m
    obtain ⟨hclient, hreceived⟩ := Session.step_frame c (sent.filterMap Request.id?) read m
    have hserves := hstep.serves
    rw [hclient, hreceived] at hserves
    rw [hclient] at hlast
    exact ⟨_, List.Subset.refl _, hserves, hlast⟩
  | waitFor id =>
    obtain ⟨channel, hchannel, serves⟩ := h
    simp only [Call.perform, Client.waitFor, Client.waitOn, hchannel, Call.request?,
      Option.toList_none, List.append_nil]
    cases hwait : channel.awaitJob? id with
    | none => exact ⟨[], List.nil_subset _, ⟨channel, hchannel, by simpa using serves⟩, rfl⟩
    | some found =>
      obtain ⟨r, last⟩ := found
      obtain ⟨dropped, hwaits⟩ := Channel.waits_of_awaitJob? hwait
      refine ⟨dropped ++ [r], by simp, ⟨last, rfl, ?_⟩, rfl⟩
      rw [← List.append_assoc]
      exact serves.waits hwaits
  | highlight value language options =>
    obtain ⟨dropped, hlast, hnext⟩ :=
      h.run (fun id => .highlight id (options.job value language)) fun _ => rfl
    rw [← highlight_snd] at hlast hnext
    exact ⟨dropped, List.nil_subset _, hnext, hlast⟩
  | tokenizeHunks hunks language whitespace =>
    obtain ⟨dropped, hlast, hnext⟩ :=
      h.run (fun id => .tokenize id ⟨hunks, language, whitespace⟩) fun _ => rfl
    rw [← tokenizeHunks_snd] at hlast hnext
    exact ⟨dropped, List.nil_subset _, hnext, hlast⟩

/-! ### Numbers -/

/-- The jobs among these requests are numbered from one on, up to the last number. -/
def Numbered (last : JobId) (sent : List Request) : Prop :=
  ∃ count, last = UInt64.ofNat count ∧
    sent.filterMap Request.id? = (List.range' 1 count).map UInt64.ofNat

namespace Numbered

variable {last : JobId}

theorem ofNat_add_one (n : Nat) : UInt64.ofNat n + 1 = UInt64.ofNat (n + 1) :=
  (UInt64.ofNat_add n 1).symm

theorem append (h : Numbered last sent) {request? : Option Request}
    (hid : request?.bind Request.id? = none ∨ request?.bind Request.id? = some (last + 1)) :
    Numbered ((request?.bind Request.id?).getD last) (sent ++ request?.toList) := by
  obtain ⟨count, rfl, hids⟩ := h
  have happend : (sent ++ request?.toList).filterMap Request.id? =
      (List.range' 1 count).map UInt64.ofNat ++ (request?.bind Request.id?).toList := by
    rw [List.filterMap_append, hids]
    cases request? with
    | none => rfl
    | some r => cases r <;> rfl
  rcases hid with hid | hid
  · rw [hid] at happend ⊢
    exact ⟨count, rfl, by simpa using happend⟩
  · rw [hid] at happend ⊢
    refine ⟨count + 1, ofNat_add_one count, ?_⟩
    rw [happend, List.range'_concat, List.map_append, Nat.one_mul, Nat.add_comm 1 count,
      ofNat_add_one]
    rfl

/-- The responses to come have the last numbers. -/
theorem map_id_coming (h : Numbered last sent) {channel : Channel σ}
    (serves : channel.Serves w sent read) :
    ∃ before, last = UInt64.ofNat (before + channel.coming.length) ∧
      channel.coming.map Response.id =
        (List.range' (1 + before) channel.coming.length).map UInt64.ofNat := by
  obtain ⟨count, rfl, hids⟩ := h
  have hsplit := serves.map_id_coming.trans hids
  have hcount := congrArg List.length hsplit
  simp only [List.length_append, List.length_map, List.length_range'] at hcount
  refine ⟨read.length, by rw [hcount], ?_⟩
  rw [← hcount, ← List.range'_append_1, List.map_append] at hsplit
  exact List.append_inj_right hsplit (by simp)

/-- The next number is not among theirs, as long as fewer are to come than there are numbers. -/
theorem fresh (h : Numbered last sent) {channel : Channel σ}
    (serves : channel.Serves w sent read) (hlt : channel.coming.length < 2 ^ 64) :
    ∀ r ∈ channel.coming, r.id ≠ last + 1 := by
  obtain ⟨before, rfl, hids⟩ := h.map_id_coming serves
  intro r hr heq
  have hmem : r.id ∈ channel.coming.map Response.id := List.mem_map_of_mem hr
  rw [hids] at hmem
  obtain ⟨n, hn, hnumber⟩ := List.mem_map.mp hmem
  have hrange := List.mem_range'_1.mp hn
  rw [← hnumber, ofNat_add_one] at heq
  have hmod := congrArg UInt64.toNat heq
  rw [UInt64.toNat_ofNat', UInt64.toNat_ofNat'] at hmod
  omega

theorem pairwise (h : Numbered last sent) (hlt : (sent.filterMap Request.id?).length < 2 ^ 64) :
    (sent.filterMap Request.id?).Pairwise (· < ·) := by
  obtain ⟨count, -, hids⟩ := h
  rw [hids, List.length_map, List.length_range'] at hlt
  rw [hids]
  exact Session.pairwise_map_ofNat (by omega)

end Numbered

/-! ### Any number of calls -/

namespace Exchange

/-- The client is connected to a worker that started as `w`, what it has handed out has been read,
and its jobs are numbered. -/
structure Live (w : Worker σ) (e : Exchange σ) : Prop where
  attached : ∃ read, e.handed ⊆ read ∧ e.client.Attached w e.sent read
  numbered : Numbered e.client.lastId e.sent

theorem live_start (w : Worker σ) : Live w (start w) :=
  ⟨⟨[], List.Subset.refl _, _, rfl, Channel.serves_new w⟩, 0, rfl, rfl⟩

theorem Live.call {e : Exchange σ} (h : Live w e) (c : Call) : Live w (e.call c) := by
  obtain ⟨read, hread, hattached⟩ := h.attached
  obtain ⟨more, hmore, hnext, hlast⟩ := hattached.perform c
  constructor
  · refine ⟨read ++ more, ?_, hnext⟩
    intro r hr
    rcases List.mem_append.mp hr with hold | hnew
    · exact List.mem_append_left _ (hread hold)
    · exact List.mem_append_right _ (hmore hnew)
  · have hnumbered := h.numbered.append (c.bind_id_request? (e.client.lastId + 1))
    rw [← hlast] at hnumbered
    exact hnumbered

theorem live_run (w : Worker σ) (calls : List Call) : Live w (run w calls) := by
  unfold run
  have hstart := live_start w
  generalize start w = e at hstart ⊢
  induction calls generalizing e with
  | nil => exact hstart
  | cons c rest ih => exact ih (e.call c) (hstart.call c)

end Exchange

end Highlighting
