import Mathlib
import Highlighting.Proofs.Worker.Exchange

/-! The answers of calls that block. The job of such a call is the last one, so its response is the
last that is to come, and whoever waits for it has read everything when it is there. -/

namespace Highlighting

variable {σ : Type} [Engine σ]

/-- The response to a highlight job. -/
def Response.ofTree (id : JobId) : Except JobError Forest → Response
  | .ok tree => .success id (.tree tree)
  | .error e => .failure id ⟨e.message, none⟩

/-- The response to a tokenize job. -/
def Response.ofTokens (id : JobId) : Except JobError DiffTokens → Response
  | .ok tokens => .success id (.tokens true tokens)
  | .error e => .failure id ⟨e.message, some false⟩

/-- What a view shows of a highlight job that the worker has done. -/
def HighlightState.ofResult : Except JobError Forest → HighlightState
  | .ok tree => ⟨some tree, false, none⟩
  | .error e => failed e.message

@[simp] theorem Response.id_ofTree (id : JobId) (result : Except JobError Forest) :
    (ofTree id result).id = id := by
  cases result <;> rfl

theorem HighlightState.ofResponse_ofTree (id : JobId) (result : Except JobError Forest) :
    ofResponse (.ofTree id result) = ofResult result := by
  cases result <;> rfl

namespace Client

theorem tokensOf_ofTokens (id other : JobId) (result : Except JobError DiffTokens) :
    tokensOf id (.ofTokens other result) = result.mapError JobError.message := by
  cases result <;> rfl

variable {c next : Client σ} {id : JobId} {r : Response}

theorem highlight_eq {value language : String} {options : HighlightOptions}
    (h : c.run (fun id => .highlight id (options.job value language)) = (.done (id, r), next)) :
    c.highlight value language options = (.done (.ofResponse r), next) := by
  unfold highlight
  rw [h]

theorem tokenizeHunks_eq {hunks : List Hunk} {language : String} {whitespace : Bool}
    (h : c.run (fun id => .tokenize id ⟨hunks, language, whitespace⟩) = (.done (id, r), next)) :
    c.tokenizeHunks hunks language whitespace = (.done (tokensOf id r), next) := by
  unfold tokenizeHunks
  rw [h]

end Client

theorem Worker.handle_highlight_fst (w : Worker σ) (id : JobId) (job : HighlightJob) :
    (w.handle (.highlight id job)).1 = some (.ofTree id (w.highlight job).1) := by
  rw [handle_highlight]
  cases (w.highlight job).1 <;> rfl

theorem Worker.handle_tokenize_fst (w : Worker σ) (id : JobId) (job : TokenizeJob) :
    (w.handle (.tokenize id job)).1 = some (.ofTokens id (w.tokenize job).1) := by
  rw [handle_tokenize]
  cases (w.tokenize job).1 <;> rfl

namespace Channel

/-- Waiting for the response to a job yields `r` and leaves the queues empty; in whatever order the
client and the worker act, it drops `dropped` and ends in the same way. -/
structure Drains (c : Channel σ) (id : JobId) (dropped : List Response) (r : Response)
    (worker : Worker σ) : Prop where
  returns : c.awaitJob? id = some (r, ⟨worker, [], []⟩)
  always : ∀ {skipped : List Response} {found : Response} {last : Channel σ},
    c.Waits id skipped found last → skipped = dropped ∧ found = r ∧ last = ⟨worker, [], []⟩

variable {w : Worker σ} {sent : List Request} {read : List Response} {c : Channel σ}
  {request : Request} {id : JobId} {r : Response}

/-- If nothing is to come and the last request was a job, both queues are empty. -/
theorem Serves.eq_empty (h : c.Serves w (sent ++ [request]) read) (hid : request.id? = some id)
    (hcoming : c.coming = []) : c = ⟨(w.handleAll (sent ++ [request])).2, [], []⟩ := by
  obtain ⟨hresponses, hanswers⟩ := List.append_eq_nil_iff.mp hcoming
  have hrequests : c.requests = [] := by
    obtain ⟨taken, hsent, -⟩ := h
    have hnone := c.worker.map_id_handleAll c.requests
    rw [hanswers] at hnone
    -- A request that still waited would be the last one or stand before it.
    rcases List.eq_nil_or_concat' c.requests with hnil | ⟨front, final, hfinal⟩
    · exact hnil
    · rw [hfinal, ← List.append_assoc] at hsent
      obtain ⟨-, hlast⟩ := List.append_inj' hsent rfl
      cases hlast
      rw [hfinal, List.filterMap_append, List.filterMap_cons_some hid] at hnone
      simp at hnone
  calc
    c = ⟨c.worker, c.requests, c.responses⟩ := rfl
    _ = ⟨(c.worker.handleAll c.requests).2, [], []⟩ := by rw [hrequests, hresponses]; rfl
    _ = ⟨(w.handleAll (sent ++ [request])).2, [], []⟩ := by rw [h.worker_eq]

/-- Waiting for the response to the job that was sent last, if none of the responses to come before
has its number. -/
theorem Serves.drains (h : c.Serves w sent read) (hid : request.id? = some id)
    (hfresh : ∀ d ∈ c.coming, d.id ≠ id)
    (hanswer : ((w.handleAll sent).2.handle request).1 = some r) :
    (c.send request).Drains id c.coming r ((w.handleAll sent).2.handle request).2 := by
  have hcoming := h.coming_send request
  have hafter : (w.handleAll (sent ++ [request])).2 = ((w.handleAll sent).2.handle request).2 := by
    rw [Worker.handleAll_append]
    rfl
  rw [hanswer] at hcoming
  have halways : ∀ {skipped : List Response} {found : Response} {last : Channel σ},
      (c.send request).Waits id skipped found last → skipped = c.coming ∧ found = r ∧
        last = ⟨((w.handleAll sent).2.handle request).2, [], []⟩ := by
    intro skipped found last hwaits
    obtain ⟨hsplit, -, hfound⟩ := hwaits.coming_eq
    rw [hcoming] at hsplit
    -- What is found stands at the end, since none of those before has its number.
    have hnot : found ∉ c.coming := fun hmem => hfresh found hmem hfound
    obtain ⟨hskipped, hsame, hrest⟩ :=
      (List.append_cons_inj_of_notMem hnot List.not_mem_nil).mp hsplit
    have hempty := ((h.send request).waits hwaits).eq_empty hid hrest.symm
    rw [hafter] at hempty
    exact ⟨hskipped.symm, hsame.symm, hempty⟩
  obtain ⟨found, last, hwait⟩ := h.awaitJob?_send hid
  obtain ⟨skipped, hwaits⟩ := waits_of_awaitJob? hwait
  obtain ⟨-, rfl, rfl⟩ := halways hwaits
  exact ⟨hwait, halways⟩

end Channel

/-- After any calls the client still has its worker. While fewer than `2 ^ 64` responses are to
come, and there is no room for more, a call that blocks returns what the worker makes of its own job
in the state that all requests before it lead to: a view of the tree or of the failure, and the
tokens or the reason of the failure. Its response has the kind that the call expects. All responses
that were to come before are dropped, in whatever order the client and the worker act meanwhile, and
both queues are empty afterwards. -/
theorem Exchange.blocking_answers_own (w : Worker σ) (calls : List Call) :
    let e := run w calls
    let v := (w.handleAll e.sent).2
    let id := e.client.lastId + 1
    ∃ channel, e.client.channel = some channel ∧ (channel.coming.length < 2 ^ 64 →
      (∀ (value language : String) (options : HighlightOptions),
        let request : Request := .highlight id (options.job value language)
        let result := (v.highlight (options.job value language)).1
        let after := (v.handle request).2
        (v.handle request).1 = some (.ofTree id result) ∧
          e.client.highlight value language options =
            (.done (.ofResult result), ⟨some ⟨after, [], []⟩, id⟩) ∧
          (channel.send request).Drains id channel.coming (.ofTree id result) after) ∧
      ∀ (hunks : List Hunk) (language : String) (whitespace : Bool),
        let request : Request := .tokenize id ⟨hunks, language, whitespace⟩
        let result := (v.tokenize ⟨hunks, language, whitespace⟩).1
        let after := (v.handle request).2
        (v.handle request).1 = some (.ofTokens id result) ∧
          e.client.tokenizeHunks hunks language whitespace =
            (.done (result.mapError JobError.message), ⟨some ⟨after, [], []⟩, id⟩) ∧
          (channel.send request).Drains id channel.coming (.ofTokens id result) after) := by
  intro e v id
  have hlive : Live w e := live_run w calls
  obtain ⟨read, -, channel, hchannel, serves⟩ := hlive.attached
  refine ⟨channel, hchannel, fun hlt => ?_⟩
  have hfresh := hlive.numbered.fresh serves hlt
  constructor
  · intro value language options request result after
    have hanswer : (v.handle request).1 = some (.ofTree id result) := v.handle_highlight_fst id _
    have hdrains := serves.drains rfl hfresh hanswer
    have hrun := Client.run_eq (fun id => .highlight id (options.job value language)) hchannel
      hdrains.returns
    refine ⟨hanswer, ?_, hdrains⟩
    rw [Client.highlight_eq hrun, HighlightState.ofResponse_ofTree]
  · intro hunks language whitespace request result after
    have hanswer : (v.handle request).1 = some (.ofTokens id result) := v.handle_tokenize_fst id _
    have hdrains := serves.drains rfl hfresh hanswer
    have hrun := Client.run_eq (fun id => .tokenize id ⟨hunks, language, whitespace⟩) hchannel
      hdrains.returns
    refine ⟨hanswer, ?_, hdrains⟩
    rw [Client.tokenizeHunks_eq hrun, Client.tokensOf_ofTokens]

/-- The response to a tokenize job is unread, and a highlight job is not yet handled. -/
theorem Exchange.blocking_answers_own_backlog :
    let w : Worker CaptureEngine := ⟨.new .empty, .empty, 600⟩
    let calls : List Call := [.move (.tokenize ⟨[], plainText, false⟩), .move .work,
      .move (.highlight ⟨"x", plainText, none, false, none⟩)]
    ∃ channel, (run w calls).client.channel = some channel ∧ channel.coming.length < 2 ^ 64 ∧
      channel.coming.map Response.id = [1, 2] ∧
      ((run w calls).client.highlight "y" plainText ⟨none, false, []⟩).1 =
        .done ⟨some [.text "y"], false, none⟩ := by
  intro w calls
  obtain ⟨channel, hchannel, hblocking⟩ := blocking_answers_own w calls
  have hcoming : channel.coming.map Response.id = [1, 2] := by
    have serves := ((Channel.serves_new w).send (.tokenize 1 ⟨[], plainText, false⟩)).work.send
      (.highlight 2 ⟨"x", plainText, none, false, none⟩)
    have hsame : (run w calls).client.channel = some _ := rfl
    cases hchannel.symm.trans hsame
    exact serves.map_id_coming
  have hlt : channel.coming.length < 2 ^ 64 := by
    rw [← List.length_map Response.id, hcoming]
    decide
  refine ⟨channel, hchannel, hlt, hcoming, ?_⟩
  have hsent : (run w calls).sent = [.tokenize 1 ⟨[], plainText, false⟩,
      .highlight 2 ⟨"x", plainText, none, false, none⟩] := rfl
  have hresult : ((w.handleAll (run w calls).sent).2.highlight
      ⟨"y", plainText, none, false, none⟩).1 = .ok [.text "y"] := by
    rw [hsent]
    cbv
  have hown := ((hblocking hlt).1 "y" plainText ⟨none, false, []⟩).2.1
  rw [hown]
  exact congrArg (fun result => Wait.done (HighlightState.ofResult result)) hresult

end Highlighting
