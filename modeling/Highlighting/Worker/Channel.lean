import Highlighting.Worker.Job

/-! A worker behind two queues: requests that it did not take yet, and responses that nobody
received yet. The worker and its client act in any order. -/

namespace Highlighting

structure Channel (σ : Type) where
  worker : Worker σ
  requests : List Request
  responses : List Response

namespace Channel

variable {σ : Type}

def new (worker : Worker σ) : Channel σ := ⟨worker, [], []⟩

def send (c : Channel σ) (r : Request) : Channel σ := { c with requests := c.requests ++ [r] }

/-- The client takes the oldest response, if one is there. -/
def receive? (c : Channel σ) : Option (Response × Channel σ) :=
  match c.responses with
  | [] => none
  | r :: rest => some (r, { c with responses := rest })

variable [Engine σ]

/-- The worker handles the oldest request, if there is one. -/
def work (c : Channel σ) : Channel σ :=
  match c.requests with
  | [] => c
  | r :: rest =>
    let (response, worker) := c.worker.handle r
    ⟨worker, rest, c.responses ++ response.toList⟩

def size (c : Channel σ) : Nat := c.requests.length + c.responses.length

/-- The client waits for the next response while the worker works. None is to come if no request is
left. -/
def await? (c : Channel σ) : Option (Response × Channel σ) :=
  match c.responses, _h : c.requests with
  | r :: rest, _ => some (r, { c with responses := rest })
  | [], [] => none
  | [], _ :: _ => await? c.work
termination_by c.requests.length
decreasing_by simp [work, _h]

theorem size_work_le (c : Channel σ) : c.work.size ≤ c.size := by
  unfold work size
  split
  · exact Nat.le_refl _
  · next r rest hr =>
    obtain ⟨answer, w⟩ := c.worker.handle r
    have hanswer : answer.toList.length ≤ 1 := by cases answer <;> simp
    simp only [hr, List.length_append, List.length_cons]
    omega

theorem size_await?_lt {c c' : Channel σ} {r : Response} (h : c.await? = some (r, c')) :
    c'.size < c.size := by
  fun_induction await? c with
  | case1 c r rest hr =>
    cases h
    simp [size, hr]
  | case2 => cases h
  | case3 c _ _ _ _ ih => exact Nat.lt_of_lt_of_le (ih h) c.size_work_le

/-- The client waits for the response to one job and drops those before it. -/
def awaitJob? (c : Channel σ) (id : JobId) : Option (Response × Channel σ) :=
  match _h : c.await? with
  | none => none
  | some (r, c) => if r.id = id then some (r, c) else c.awaitJob? id
termination_by c.size
decreasing_by exact size_await?_lt _h

end Channel

end Highlighting
