import Mathlib
import Highlighting.Proofs.Worker.Blocking
import Highlighting.Worker.Slot

/-! A view beside everything else that its client does. Responses reach the view in any order, some
of them twice and some of them never, and most are not meant for it. -/

namespace Highlighting

variable {σ : Type} [Engine σ]

/-- What happens to a view or to its client. A response that the client has handed out may be
delivered at any time. -/
inductive Act where
  | call (c : Call)
  | request (value language : String) (options : HighlightOptions)
  | requestMarked (raw : String) (bounds : Bounds) (language : String) (options : HighlightOptions)
  | deliver (index : Nat)

/-- A request of a view: what was sent before it, its number and its job, and the rendering to show
instead of a tree. -/
structure Asked where
  before : List Request
  id : JobId
  job : HighlightJob
  fallback : Forest

namespace Asked

def request (a : Asked) : Request := .highlight a.id a.job

/-- What the worker makes of a request, in the state that the requests before it lead to. -/
def result (a : Asked) (w : Worker σ) : Except JobError Forest :=
  ((w.handleAll a.before).2.highlight a.job).1

end Asked

/-- A view with its client, its requests and the responses that it took. -/
structure View (σ : Type) where
  exchange : Exchange σ
  slot : Slot
  asked : List Asked
  taken : List Response

namespace View

def start (w : Worker σ) : View σ := ⟨.start w, .new, [], []⟩

/-- A request was made of the slot. -/
def ask (v : View σ) (fallback : Forest) (job : HighlightJob)
    (outcome : Option JobId × Slot × Client σ) : View σ :=
  let (id?, slot, client) := outcome
  { exchange := ⟨client, v.exchange.sent ++ (id?.map (.highlight · job)).toList,
      v.exchange.handed⟩
    slot
    asked := v.asked ++ (id?.map (⟨v.exchange.sent, ·, job, fallback⟩)).toList
    taken := v.taken }

def deliver (v : View σ) (r : Response) : View σ :=
  let (applied, slot) := v.slot.apply r
  { v with slot, taken := if applied then v.taken ++ [r] else v.taken }

def act (v : View σ) : Act → View σ
  | .call c => { v with exchange := v.exchange.call c }
  | .request value language options =>
    v.ask (Forest.plain value) (options.job value language)
      (v.slot.request v.exchange.client value language options)
  | .requestMarked raw bounds language options =>
    v.ask (bounds.strip raw).fallback (options.job (bounds.strip raw).text language)
      (v.slot.requestMarked v.exchange.client raw bounds language options)
  | .deliver index =>
    match v.exchange.handed[index]? with
    | none => v
    | some r => v.deliver r

def run (w : Worker σ) (acts : List Act) : View σ := acts.foldl act (start w)

/-! ### What a step keeps -/

/-- The client is live, the requests of the view are among those that it sent, the view took at most
one response for each of them, and it shows the latest. -/
structure Current (w : Worker σ) (v : View σ) : Prop where
  live : v.exchange.Live w
  sent : ∀ a ∈ v.asked, ∃ after, v.exchange.sent = a.before ++ a.request :: after
  ids : (v.asked.map Asked.id).Sublist (v.exchange.sent.filterMap Request.id?)
  once : (v.taken.map Response.id ++ v.slot.pending.toList).Sublist (v.asked.map Asked.id)
  latest : ∀ id, v.slot.pending = some id → v.asked.getLast?.map Asked.id = some id
  loading : v.slot.state.isLoading = v.slot.pending.isSome
  fallback : ∀ a, v.asked.getLast? = some a → v.slot.fallback = a.fallback
  shown : v.slot.pending = none → ∀ a, v.asked.getLast? = some a →
    ∃ r ∈ v.exchange.handed, r.id = a.id ∧ v.slot.state = .ofResponse r

variable {w : Worker σ} {v : View σ}

theorem Current.call (h : Current w v) (c : Call) :
    Current w { v with exchange := v.exchange.call c } :=
  { h with
    live := h.live.call c
    sent := by
      intro a ha
      obtain ⟨after, hsent⟩ := h.sent a ha
      refine ⟨after ++ (c.request? (v.exchange.client.lastId + 1)).toList, ?_⟩
      change v.exchange.sent ++ _ = _
      rw [hsent, List.append_assoc, List.cons_append]
    ids := by
      refine h.ids.trans ?_
      change List.Sublist _ ((v.exchange.sent ++ _).filterMap Request.id?)
      rw [List.filterMap_append]
      exact List.sublist_append_left _ _
    shown := by
      intro hpending a ha
      obtain ⟨r, hr, hid, hstate⟩ := h.shown hpending a ha
      exact ⟨r, List.mem_append_left _ hr, hid, hstate⟩ }

/-- With a live client a request goes out under the next number, as any other highlight job. -/
theorem ask_submit (hlive : v.exchange.Live w) (fallback : Forest) (job : HighlightJob) :
    v.ask fallback job (v.slot.submit v.exchange.client fallback job) =
      ⟨v.exchange.call (.move (.highlight job)),
        ({ v.slot with fallback } : Slot).begin (v.exchange.client.lastId + 1),
        v.asked ++ [⟨v.exchange.sent, v.exchange.client.lastId + 1, job, fallback⟩], v.taken⟩ := by
  obtain ⟨_, _, channel, hchannel, _⟩ := hlive.attached
  simp [ask, Slot.submit, Client.submitHighlight, Client.submit, Client.send, hchannel,
    Exchange.call, Call.perform, Call.request?, Move.request?, Session.step]

theorem Current.ask (h : Current w v) (fallback : Forest) (job : HighlightJob) :
    Current w (v.ask fallback job (v.slot.submit v.exchange.client fallback job)) := by
  have hcall := h.call (.move (.highlight job))
  rw [ask_submit h.live]
  constructor
  case live => exact hcall.live
  case sent =>
    intro a ha
    rcases List.mem_append.mp ha with hold | hnew
    · exact hcall.sent a hold
    · rw [List.mem_singleton.mp hnew]
      exact ⟨[], rfl⟩
  case ids =>
    change List.Sublist _ ((v.exchange.sent ++ _).filterMap Request.id?)
    rw [List.map_append, List.filterMap_append]
    exact h.ids.append (List.Sublist.refl _)
  case once =>
    have htaken := (List.sublist_append_left _ _).trans h.once
    rw [List.map_append]
    exact htaken.append (List.Sublist.refl _)
  case latest =>
    rintro id hid
    cases hid
    simp
  case loading => rfl
  case fallback =>
    intro a ha
    rw [List.getLast?_concat] at ha
    cases ha
    rfl
  case shown => intro hpending; cases hpending

theorem Current.deliver (h : Current w v) {r : Response} (hr : r ∈ v.exchange.handed) :
    Current w (v.deliver r) := by
  unfold View.deliver Slot.apply
  by_cases hpending : v.slot.pending = some r.id
  · rw [if_pos hpending]
    have honce : ((v.taken ++ [r]).map Response.id ++ []).Sublist (v.asked.map Asked.id) := by
      have hbefore := h.once
      rw [hpending] at hbefore
      simpa using hbefore
    refine { h with once := honce, latest := ?_, loading := ?_, shown := ?_ }
    · intro id hid
      cases hid
    · rcases r with ⟨_, _ | _⟩ | ⟨_, _⟩ <;> rfl
    · intro _ a ha
      have hlatest := h.latest r.id hpending
      rw [ha, Option.map_some, Option.some.injEq] at hlatest
      exact ⟨r, hr, hlatest.symm, rfl⟩
  · rw [if_neg hpending]
    exact h

theorem Current.act (h : Current w v) (a : Act) : Current w (v.act a) := by
  cases a with
  | call c => exact h.call c
  | request value language options => exact h.ask _ _
  | requestMarked raw bounds language options => exact h.ask _ _
  | deliver index =>
    simp only [View.act]
    split
    · exact h
    · next r hhanded => exact h.deliver (List.mem_of_getElem? hhanded)

end View

/-! ### Whose response it is -/

namespace View

variable {w : Worker σ} {v : View σ}

theorem Current.nodup (h : Current w v)
    (hlt : (v.exchange.sent.filterMap Request.id?).length < 2 ^ 64) :
    (v.exchange.sent.filterMap Request.id?).Nodup :=
  (h.live.numbered.pairwise hlt).imp fun hab => UInt64.ne_of_lt hab

end View

end Highlighting
