import Highlighting.Command.Run
import Highlighting.Proofs.Worker.Blocking

/-! What the highlight command shows. It has a client of its own, so its job is the only one, and it
shows what the worker of the configuration makes of that job, with whatever engine. -/

namespace Highlighting

variable {σ : Type}

/-! ### A job of a slot -/

theorem Slot.submit_of_channel {c : Client σ} {channel : Channel σ} {id : JobId} (slot : Slot)
    (hchannel : c.channel = some channel) (hid : c.lastId + 1 = id) (fallback : Forest)
    (job : HighlightJob) :
    slot.submit c fallback job = (some id, ({ slot with fallback } : Slot).begin id,
      ⟨some (channel.send (.highlight id job)), id⟩) := by
  simp [submit, Client.submitHighlight, Client.submit, Client.send, hchannel, hid]

/-- The answer to the job that a slot waits for is what the slot shows from then on. -/
theorem Slot.apply_begin (slot : Slot) (id : JobId) (result : Except JobError Forest) :
    (slot.begin id).apply (.ofTree id result) =
      (true, ⟨none, .ofResult result, slot.fallback⟩) := by
  unfold apply
  rw [Response.id_ofTree, HighlightState.ofResponse_ofTree]
  exact if_pos rfl

variable [Engine σ]

theorem Client.waitFor_of_awaitJob? {c : Client σ} {channel last : Channel σ} {id : JobId}
    {r : Response} (hchannel : c.channel = some channel)
    (hwait : channel.awaitJob? id = some (r, last)) :
    c.waitFor id = (.done r, ⟨some last, c.lastId⟩) := by
  unfold waitFor waitOn
  rw [hchannel]
  dsimp only
  rw [hwait]

/-! ### The worker of a configuration -/

namespace Config

/-- An engine with the theme of a configuration, if that has one. -/
def themed (c : Config) (s : σ) : σ :=
  if c.theme.classes.isEmpty then s else Engine.setTheme s c.theme

def worker (c : Config) (s : σ) : Worker σ := ⟨c.themed s, c.tables, c.diffLimit.toNat⟩

/-- The client of a configuration, with any engine. -/
def client (c : Config) (s : σ) : Client σ :=
  let client := .new ⟨s, c.tables, c.diffLimit.toNat⟩
  if c.theme.classes.isEmpty then client else (client.loadTheme c.theme).2

theorem client_captureEngine (c : Config) (source : CaptureSource) :
    c.client (CaptureEngine.new source) = .ofConfig c source := rfl

/-- The worker behind a new client has its theme before the first job, and nothing is to come. -/
theorem exists_serves_client (c : Config) (s : σ) : ∃ channel w sent,
    c.client s = ⟨some channel, 0⟩ ∧ channel.Serves w sent [] ∧
      (w.handleAll sent).2 = c.worker s ∧ channel.coming = [] := by
  unfold client worker themed
  split
  · exact ⟨_, _, [], rfl, Channel.serves_new _, rfl, rfl⟩
  · exact ⟨_, _, [.theme c.theme], rfl, (Channel.serves_new _).send _, rfl, rfl⟩

end Config

/-! ### The command -/

namespace HighlightArguments

/-- The text to highlight. -/
def value (a : HighlightArguments) (text : String) : String :=
  match a.bounds? with
  | some bounds => (bounds.strip text).text
  | none => text

/-- The rendering of the text without highlighting. -/
def plain (a : HighlightArguments) (text : String) : Forest :=
  match a.bounds? with
  | some bounds => (bounds.strip text).fallback
  | none => Forest.plain text

def job (a : HighlightArguments) (c : Config) (text : String) : HighlightJob :=
  (⟨a.limit c, a.groupByLine, a.marks⟩ : HighlightOptions).job (a.value text) (a.languageName c)

/-- The command with any client: the slot after the answer, and the client. -/
def viewOn (a : HighlightArguments) (c : Config) (client : Client σ) (text : String) :
    Except String (Slot × Client σ) :=
  let (id, slot, client) := Slot.new.submit client (a.plain text) (a.job c text)
  match id with
  | none => .error disconnectedMessage
  | some id => match client.waitFor id with
    | (.done r, client) => .ok ((slot.apply r).2, client)
    | _ => .error disconnectedMessage

theorem view_eq_viewOn (a : HighlightArguments) (c : Config) (source : CaptureSource)
    (text : String) : a.view c source text =
      (a.viewOn c (c.client (CaptureEngine.new source)) text).map Prod.fst := by
  rw [Config.client_captureEngine]
  unfold view viewOn job plain value
  -- With bounds or without them, one job is submitted.
  cases a.bounds?
  all_goals
    dsimp only [Slot.request, Slot.requestMarked]
    generalize Slot.new.submit _ _ _ = submitted
    obtain ⟨_ | id, slot, client⟩ := submitted
    · rfl
    · dsimp only
      rcases client.waitFor id with ⟨_ | _ | _, next⟩ <;> rfl

/-- The slot has the answer of the worker to the job, and both queues are empty. -/
theorem viewOn_client (a : HighlightArguments) (c : Config) (s : σ) (text : String) :
    let made := (c.worker s).highlight (a.job c text)
    a.viewOn c (c.client s) text =
      .ok (⟨none, .ofResult made.1, a.plain text⟩, ⟨some ⟨made.2, [], []⟩, 1⟩) := by
  intro made
  obtain ⟨channel, w, sent, hclient, hserves, hworker, hcoming⟩ := c.exists_serves_client s
  have hanswer : ((w.handleAll sent).2.handle (.highlight 1 (a.job c text))).1 =
      some (.ofTree 1 made.1) := by
    rw [hworker]
    exact (c.worker s).handle_highlight_fst 1 (a.job c text)
  have hreturns := (hserves.drains rfl (by simp [hcoming]) hanswer).returns
  rw [hworker, Worker.handle_highlight_snd] at hreturns
  unfold viewOn
  rw [hclient, Slot.submit_of_channel Slot.new rfl (zero_add 1)]
  dsimp only
  rw [Client.waitFor_of_awaitJob? rfl hreturns]
  dsimp only
  rw [Slot.apply_begin]

theorem view_eq (a : HighlightArguments) (c : Config) (source : CaptureSource) (text : String) :
    a.view c source text =
      .ok ⟨none, .ofResult ((c.worker (CaptureEngine.new source)).highlight (a.job c text)).1,
        a.plain text⟩ := by
  rw [view_eq_viewOn, viewOn_client]
  rfl

end HighlightArguments

end Highlighting
