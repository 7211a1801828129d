import Highlighting.Proofs.Worker.Handling
import Highlighting.Worker.Channel

/-! The two queues of a channel against one worker that handles all requests in order. At any time
the requests that were taken have been handled, the others wait, and what was answered has been
received or waits too; so nothing is lost and nothing overtakes. -/

namespace Highlighting.Channel

variable {σ : Type} [Engine σ] {w : Worker σ} {sent : List Request} {received : List Response}
  {c : Channel σ}

/-- The channel stands between a client, who has sent some requests and received some responses, and
a worker that started as `w` and has taken the first of these requests. -/
def Serves (c : Channel σ) (w : Worker σ) (sent : List Request) (received : List Response) :
    Prop :=
  ∃ taken, sent = taken ++ c.requests ∧
    w.handleAll taken = (received ++ c.responses, c.worker)

theorem serves_new (w : Worker σ) : (new w).Serves w [] [] := ⟨[], rfl, rfl⟩

theorem Serves.send (h : c.Serves w sent received) (r : Request) :
    (c.send r).Serves w (sent ++ [r]) received := by
  obtain ⟨taken, rfl, hanswers⟩ := h
  exact ⟨taken, List.append_assoc .., hanswers⟩

theorem Serves.work (h : c.Serves w sent received) : c.work.Serves w sent received := by
  obtain ⟨taken, rfl, hanswers⟩ := h
  unfold Channel.work
  cases hrequests : c.requests with
  | nil => exact ⟨taken, by rw [hrequests], hanswers⟩
  | cons r rest =>
    refine ⟨taken ++ [r], by simp, ?_⟩
    rw [Worker.handleAll_append, hanswers]
    simp [Worker.handleAll]

theorem Serves.receive? (h : c.Serves w sent received) {r : Response} {next : Channel σ}
    (hr : c.receive? = some (r, next)) : next.Serves w sent (received ++ [r]) := by
  obtain ⟨taken, rfl, hanswers⟩ := h
  unfold Channel.receive? at hr
  cases hresponses : c.responses with
  | nil => simp [hresponses] at hr
  | cons first rest =>
    simp only [hresponses, Option.some.injEq, Prod.mk.injEq] at hr
    obtain ⟨rfl, rfl⟩ := hr
    exact ⟨taken, rfl, by simp [hanswers, hresponses]⟩

theorem Serves.await? (h : c.Serves w sent received) {r : Response} {next : Channel σ}
    (hr : c.await? = some (r, next)) : next.Serves w sent (received ++ [r]) := by
  fun_induction Channel.await? c with
  | case1 c first rest hresponses =>
    refine h.receive? ?_
    unfold Channel.receive?
    rw [hresponses]
    exact hr
  | case2 => cases hr
  | case3 c _ _ _ _ ih => exact ih h.work hr

/-- What is still to come of the responses: those that wait, and those to the requests that wait. -/
def coming (c : Channel σ) : List Response := c.responses ++ (c.worker.handleAll c.requests).1

/-- Received and coming responses together are those of a worker that handles all requests in
order. -/
theorem Serves.received_append_coming (h : c.Serves w sent received) :
    received ++ c.coming = (w.handleAll sent).1 := by
  obtain ⟨taken, rfl, hanswers⟩ := h
  rw [Worker.handleAll_append, hanswers]
  exact (List.append_assoc ..).symm

theorem coming_work (c : Channel σ) : c.work.coming = c.coming := by
  unfold coming Channel.work
  cases hrequests : c.requests with
  | nil => simp [hrequests]
  | cons r rest => simp [Worker.handleAll_cons]

/-- Waiting ends with the next response that is to come. -/
theorem await?_of_coming {r : Response} {rest : List Response} (h : c.coming = r :: rest) :
    ∃ next, c.await? = some (r, next) := by
  fun_induction Channel.await? c with
  | case1 c first more hresponses =>
    have hfirst : first = r := by
      unfold coming at h
      rw [hresponses] at h
      exact (List.cons.inj h).1
    exact ⟨_, by rw [hfirst]⟩
  | case2 c hresponses hrequests =>
    unfold coming at h
    rw [hresponses, hrequests] at h
    cases h
  | case3 c _ _ _ _ ih => exact ih (by rw [coming_work, h])

end Highlighting.Channel
