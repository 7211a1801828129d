import Highlighting.Proofs.Worker.Queues
import Mathlib.Logic.Function.Iterate

/-! Waiting for the response to one job. While the client waits the worker goes on, and the two may
act in any order. Every order drops the same responses and ends with the same one. -/

namespace Highlighting.Channel

variable {σ : Type} [Engine σ] {w : Worker σ} {sent : List Request} {received : List Response}
  {c next last : Channel σ} {id : JobId} {dropped : List Response} {r : Response}

/-- The client waits for the response to a job and drops those before it. In between the worker may
handle requests. -/
inductive Waits (id : JobId) : Channel σ → List Response → Response → Channel σ → Prop
  | work {c last : Channel σ} {dropped : List Response} {r : Response} :
      Waits id c.work dropped r last → Waits id c dropped r last
  | drop {c next last : Channel σ} {dropped : List Response} {first r : Response} :
      c.receive? = some (first, next) → first.id ≠ id → Waits id next dropped r last →
      Waits id c (first :: dropped) r last
  | take {c last : Channel σ} {r : Response} :
      c.receive? = some (r, last) → r.id = id → Waits id c [] r last

theorem coming_receive? (h : c.receive? = some (r, next)) : c.coming = r :: next.coming := by
  unfold receive? at h
  cases hresponses : c.responses with
  | nil => simp [hresponses] at h
  | cons first rest =>
    simp only [hresponses, Option.some.injEq, Prod.mk.injEq] at h
    obtain ⟨rfl, rfl⟩ := h
    simp [coming, hresponses]

/-- What is dropped and what is taken are the next responses that are to come. -/
theorem Waits.coming_eq (h : Waits id c dropped r last) :
    c.coming = dropped ++ r :: last.coming ∧ (∀ d ∈ dropped, d.id ≠ id) ∧ r.id = id := by
  induction h with
  | work _ ih => rwa [coming_work] at ih
  | drop hfirst hne _ ih =>
    obtain ⟨hcoming, hdropped, hr⟩ := ih
    refine ⟨?_, ?_, hr⟩
    · rw [coming_receive? hfirst, hcoming, List.cons_append]
    · intro d hd
      rcases List.mem_cons.mp hd with rfl | hd
      · exact hne
      · exact hdropped d hd
  | take hr hid => exact ⟨coming_receive? hr, by simp, hid⟩

theorem Serves.waits (h : c.Serves w sent received) (hwaits : Waits id c dropped r last) :
    last.Serves w sent (received ++ dropped ++ [r]) := by
  induction hwaits generalizing received with
  | work _ ih => exact ih h.work
  | drop hfirst _ _ ih =>
    have hrest := ih (h.receive? hfirst)
    simpa using hrest
  | take hr _ =>
    rw [List.append_nil]
    exact h.receive? hr

/-! ### Waiting ends -/

/-- Until a response is there the worker works. -/
theorem receive?_of_await? (h : c.await? = some (r, next)) :
    ∃ n, (work^[n] c).receive? = some (r, next) := by
  fun_induction await? c with
  | case1 c oldest rest hresponses =>
    refine ⟨0, ?_⟩
    rw [Function.iterate_zero, id_eq, receive?, hresponses]
    exact h
  | case2 => cases h
  | case3 c _ _ _ _ ih =>
    obtain ⟨n, hreceive⟩ := ih h
    exact ⟨n + 1, hreceive⟩

theorem coming_iterate (c : Channel σ) (n : Nat) : (work^[n] c).coming = c.coming := by
  induction n generalizing c with
  | zero => rfl
  | succ n ih => exact (ih c.work).trans c.coming_work

theorem coming_await? (h : c.await? = some (r, next)) : c.coming = r :: next.coming := by
  obtain ⟨n, hreceive⟩ := receive?_of_await? h
  rw [← coming_iterate c n, coming_receive? hreceive]

theorem Waits.of_iterate (n : Nat) (h : Waits id (Channel.work^[n] c) dropped r last) :
    Waits id c dropped r last := by
  induction n generalizing c with
  | zero => exact h
  | succ n ih => exact .work (ih h)

/-- That the worker works only when it has to is one of the orders. -/
theorem waits_of_awaitJob? (h : c.awaitJob? id = some (r, last)) :
    ∃ dropped, Waits id c dropped r last := by
  fun_induction awaitJob? c id with
  | case1 => cases h
  | case2 c first next hawait hid =>
    cases h
    obtain ⟨n, hreceive⟩ := receive?_of_await? hawait
    exact ⟨[], .of_iterate n (.take hreceive hid)⟩
  | case3 c first next hawait hid ih =>
    obtain ⟨n, hreceive⟩ := receive?_of_await? hawait
    obtain ⟨dropped, hrest⟩ := ih h
    exact ⟨first :: dropped, .of_iterate n (.drop hreceive hid hrest)⟩

/-- Waiting comes to an end if the job is among those that are to be answered. -/
theorem awaitJob?_of_coming (h : ∃ r ∈ c.coming, r.id = id) :
    ∃ r last, c.awaitJob? id = some (r, last) := by
  fun_induction awaitJob? c id with
  | case1 c hawait =>
    obtain ⟨r, hr, -⟩ := h
    obtain ⟨first, rest, hcoming⟩ := List.exists_cons_of_ne_nil (List.ne_nil_of_mem hr)
    obtain ⟨next, hnext⟩ := await?_of_coming hcoming
    rw [hawait] at hnext
    cases hnext
  | case2 c first next hawait hid => exact ⟨first, next, rfl⟩
  | case3 c first next hawait hid ih =>
    obtain ⟨r, hr, hrid⟩ := h
    rw [coming_await? hawait] at hr
    rcases List.mem_cons.mp hr with rfl | hr
    · exact absurd hrid hid
    · exact ih ⟨r, hr, hrid⟩

end Highlighting.Channel
