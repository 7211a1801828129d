import Highlighting.Proofs.Wire.Nodes
import Highlighting.Worker.Message

/-! Messages are read back from their JSON form as they were: any request, and any response whose
nodes can be written. A success is read as tokens first, so a tree comes back only because what is
written of it lacks the fields of tokens. -/

namespace Highlighting

namespace Json

variable {α : Type} {encode : α → Json} {decode : Json → Option α}

theorem nullable?_ofNullable (h : ∀ a, decode (encode a) = some a) (hnull : ∀ a, encode a ≠ .null)
    (a : Option α) : nullable? decode (ofNullable encode a) = some a := by
  cases a with
  | none => rfl
  | some a =>
    have hencode : ofNullable encode (some a) = encode a := rfl
    unfold nullable?
    split
    · next heq => exact absurd heq (hnull a)
    · rw [hencode, h a, Option.map_some]

end Json

/-! ### Hunks -/

@[simp] theorem ChangeKind.ofJson?_toJson (level : Json.Level) (k : ChangeKind) :
    ofJson? level k.toJson = some k := by
  cases k <;> rfl

@[simp] theorem Change.ofJson?_toJson (level : Json.Level) (c : Change) :
    ofJson? level c.toJson = some c := by
  simp [toJson, ofJson?, Json.record?_obj, Json.asString?]

@[simp] theorem Hunk.ofJson?_toJson (level : Json.Level) (h : Hunk) :
    ofJson? level h.toJson = some h := by
  have hchanges := Json.asArray?_arr_map fun c (_ : c ∈ h.changes) => Change.ofJson?_toJson level c
  -- Not `Option.bind_some`: it holds by unfolding, and the kernel would count up to the bound of
  -- the numbers to check it.
  simp [toJson, ofJson?, Json.record?_obj, Json.asString?, hchanges, Option.bind_eq_some_iff,
    -Option.bind_some]

/-! ### Requests -/

@[simp] theorem Theme.ofJson?_toJson (t : Theme) : ofJson? t.toJson = some t := by
  have hclasses : (Json.ofDict .str t.classes).asDict? Json.asString? = some t.classes :=
    Json.asDict?_ofDict fun _ => rfl
  rw [toJson, ofJson?, hclasses, Option.map_some]

@[simp] theorem HighlightJob.ofJson?_toJson (job : HighlightJob) :
    ofJson? job.toJson = some job := by
  obtain ⟨value, language, nodeLimit, groupByLine, markedTexts⟩ := job
  have hlimit := Json.nullable?_ofNullable Json.asUnsigned?_ofUnsigned nofun nodeLimit
  cases markedTexts with
  | none =>
    simp [toJson, ofJson?, Json.record?_obj, Json.asString?, Json.asBool?, Json.ofPresent,
      hlimit]
  | some texts =>
    have htexts : Json.nullable? Json.asStrings? (Json.ofStrings texts) = some (some texts) :=
      congrArg (Option.map some) (Json.asStrings?_ofStrings texts)
    simp [toJson, ofJson?, Json.record?_obj, Json.asString?, Json.asBool?, Json.ofPresent,
      hlimit, htexts]

@[simp] theorem TokenizeJob.ofJson?_toJson (level : Json.Level) (job : TokenizeJob) :
    ofJson? level job.toJson = some job := by
  have hhunks := Json.asArray?_arr_map fun h (_ : h ∈ job.hunks) => Hunk.ofJson?_toJson level h
  simp [toJson, ofJson?, Json.record?_obj, Json.asString?, Json.asBool?, hhunks]

theorem Request.ofJson?_toJson (r : Request) : ofJson? r.toJson = some r := by
  cases r <;>
    simp [toJson, ofJson?, Json.tagged?, Json.kind?, kinds, Json.record?_obj,
      Option.bind_eq_some_iff, -Option.bind_some]

/-! ### Responses -/

/-- The properties of all nodes can be written. -/
def DiffTokens.Writable (t : DiffTokens) : Prop :=
  (∀ f ∈ t.old, Forest.Writable f) ∧ ∀ f ∈ t.new, Forest.Writable f

def Success.Writable : Success → Prop
  | tokens _ t => t.Writable
  | tree t => Forest.Writable t

def Response.Writable : Response → Prop
  | success _ payload => payload.Writable
  | failure .. => True

instance (t : DiffTokens) : Decidable t.Writable := inferInstanceAs (Decidable (_ ∧ _))

instance : ∀ p : Success, Decidable p.Writable
  | .tokens _ t => inferInstanceAs (Decidable t.Writable)
  | .tree t => inferInstanceAs (Decidable (Forest.Writable t))

instance : ∀ r : Response, Decidable r.Writable
  | .success _ payload => inferInstanceAs (Decidable payload.Writable)
  | .failure .. => .isTrue trivial

theorem DiffTokens.asArray?_sideToJson (level : Json.Level) {side : List Forest}
    (hside : ∀ f ∈ side, Forest.Writable f) :
    (sideToJson side).asArray? (Forest.ofJson? level) = some side :=
  Json.asArray?_arr_map fun f hf => Forest.ofJson?_toJson level (hside f hf)

theorem DiffTokens.ofJson?_toJson (level : Json.Level) {t : DiffTokens} (ht : t.Writable) :
    ofJson? level t.toJson = some t := by
  simp [toJson, ofJson?, Json.record?_obj,
    asArray?_sideToJson level ht.1, asArray?_sideToJson level ht.2]

namespace Success

/-- A written tree is not read as tokens, whatever its nodes are. -/
theorem tokensOfJson?_toJson_tree (f : Forest) : tokensOfJson? (tree f).toJson = none := by
  simp [toJson, tokensOfJson?, Json.record?_obj]

theorem treeOfJson?_toJson_tokens (success : Bool) (t : DiffTokens) :
    treeOfJson? (tokens success t).toJson = none := by
  simp [toJson, treeOfJson?, Json.record?_obj]

theorem ofJson?_eq_or (j : Json) : ofJson? j = (tokensOfJson? j).or (treeOfJson? j) := by
  rw [ofJson?, Option.orElse_eq_orElse, Option.orElse_eq_or]

theorem ofJson?_toJson_tree (f : Forest) :
    ofJson? (tree f).toJson = (Forest.ofJson? .inner f.toJson).map tree := by
  rw [ofJson?_eq_or, tokensOfJson?_toJson_tree, Option.none_or]
  ext p
  simp [toJson, treeOfJson?, Json.record?_obj, Option.bind_eq_some_iff]

theorem ofJson?_toJson_tokens (success : Bool) (t : DiffTokens) :
    ofJson? (tokens success t).toJson =
      (DiffTokens.ofJson? .inner t.toJson).map (tokens success) := by
  rw [ofJson?_eq_or, treeOfJson?_toJson_tokens, Option.or_none]
  ext p
  simp [toJson, tokensOfJson?, Json.record?_obj, Json.asBool?, Option.bind_eq_some_iff]

theorem ofJson?_toJson {p : Success} (hp : p.Writable) : ofJson? p.toJson = some p := by
  cases p with
  | tokens success t =>
    rw [ofJson?_toJson_tokens, DiffTokens.ofJson?_toJson .inner hp, Option.map_some]
  | tree f => rw [ofJson?_toJson_tree, Forest.ofJson?_toJson .inner hp, Option.map_some]

end Success

@[simp] theorem Failure.ofJson?_toJson (f : Failure) : ofJson? f.toJson = some f := by
  obtain ⟨reason, success⟩ := f
  cases success <;>
    simp [toJson, ofJson?, Json.record?_obj, Json.nullable?, Json.asString?,
      Json.asBool?, Json.ofPresent]

theorem Response.ofJson?_toJson_success (id : JobId) (payload : Success) :
    ofJson? (success id payload).toJson = (Success.ofJson? payload.toJson).map (success id) := by
  ext r
  simp [toJson, ofJson?, Json.tagged?, Json.kind?, kinds, Json.record?_obj,
    Option.bind_eq_some_iff, -Option.bind_some]

theorem Response.ofJson?_toJson {r : Response} (hr : r.Writable) : ofJson? r.toJson = some r := by
  cases r with
  | success id payload => rw [ofJson?_toJson_success, Success.ofJson?_toJson hr, Option.map_some]
  | failure id payload =>
    simp [toJson, ofJson?, Json.tagged?, Json.kind?, kinds, Json.record?_obj,
      Option.bind_eq_some_iff, -Option.bind_some]

/-! ### What is read can be written -/

theorem DiffTokens.writable_of_ofJson? {level : Json.Level} {j : Json} {t : DiffTokens}
    (h : ofJson? level j = some t) : t.Writable := by
  have hside : ∀ {j : Json} {side : List Forest}, j.asArray? (Forest.ofJson? level) = some side →
      ∀ f ∈ side, Forest.Writable f := fun hj f hf =>
    have ⟨i, hi⟩ := Json.exists_of_asArray? hj f hf
    Forest.writable_of_ofJson? level i f hi
  obtain ⟨fields, -, h⟩ := Option.bind_eq_some_iff.mp h
  obtain ⟨old, hold, h⟩ := Option.bind_eq_some_iff.mp h
  obtain ⟨new, hnew, h⟩ := Option.bind_eq_some_iff.mp h
  obtain rfl := Option.some.inj h
  obtain ⟨_, hold⟩ := Json.exists_of_required? hold
  obtain ⟨_, hnew⟩ := Json.exists_of_required? hnew
  exact ⟨hside hold, hside hnew⟩

theorem Success.writable_of_ofJson? {j : Json} {p : Success} (h : ofJson? j = some p) :
    p.Writable := by
  rw [ofJson?_eq_or, Option.or_eq_some_iff] at h
  rcases h with h | ⟨-, h⟩
  · obtain ⟨fields, -, h⟩ := Option.bind_eq_some_iff.mp h
    obtain ⟨success, -, h⟩ := Option.bind_eq_some_iff.mp h
    obtain ⟨t, ht, h⟩ := Option.bind_eq_some_iff.mp h
    obtain rfl := Option.some.inj h
    obtain ⟨_, ht⟩ := Json.exists_of_required? ht
    exact DiffTokens.writable_of_ofJson? ht
  · obtain ⟨fields, -, h⟩ := Option.bind_eq_some_iff.mp h
    obtain ⟨f, hf, h⟩ := Option.bind_eq_some_iff.mp h
    obtain rfl := Option.some.inj h
    obtain ⟨_, hf⟩ := Json.exists_of_required? hf
    exact Forest.writable_of_ofJson? .inner _ f hf

theorem Response.writable_of_ofJson? {j : Json} {r : Response} (h : ofJson? j = some r) :
    r.Writable := by
  obtain ⟨⟨kind, record⟩, -, h⟩ := Option.bind_eq_some_iff.mp h
  obtain ⟨fields, -, h⟩ := Option.bind_eq_some_iff.mp h
  split at h
  · obtain ⟨id, -, h⟩ := Option.bind_eq_some_iff.mp h
    obtain ⟨payload, hpayload, h⟩ := Option.bind_eq_some_iff.mp h
    obtain rfl := Option.some.inj h
    obtain ⟨_, hpayload⟩ := Json.exists_of_required? hpayload
    exact Success.writable_of_ofJson? hpayload
  · obtain ⟨id, -, h⟩ := Option.bind_eq_some_iff.mp h
    obtain ⟨payload, -, h⟩ := Option.bind_eq_some_iff.mp h
    obtain rfl := Option.some.inj h
    trivial
  · cases h

/-- Writing loses nothing. A message is read back from what is written of it; a tree and tokens are
not taken for each other, even where some properties cannot be written; and reading, writing and
reading again is the same as reading once. -/
theorem messages_lossless :
    (∀ r : Request, Request.ofJson? r.toJson = some r) ∧
    (∀ r : Response, r.Writable → Response.ofJson? r.toJson = some r) ∧
    (∀ id f r, Response.ofJson? (Response.success id (.tree f)).toJson = some r →
      ∃ g, r = .success id (.tree g)) ∧
    (∀ id success t r, Response.ofJson? (Response.success id (.tokens success t)).toJson = some r →
      ∃ u, r = .success id (.tokens success u)) ∧
    (∀ j r, Request.ofJson? j = some r → Request.ofJson? r.toJson = some r) ∧
    (∀ j r, Response.ofJson? j = some r → Response.ofJson? r.toJson = some r) := by
  refine ⟨Request.ofJson?_toJson, fun _ => Response.ofJson?_toJson, fun id f r h => ?_,
    fun id success t r h => ?_, fun _ r _ => Request.ofJson?_toJson r,
    fun _ _ h => Response.ofJson?_toJson (Response.writable_of_ofJson? h)⟩
  · rw [Response.ofJson?_toJson_success, Success.ofJson?_toJson_tree] at h
    obtain ⟨_, hpayload, rfl⟩ := Option.map_eq_some_iff.mp h
    obtain ⟨g, -, rfl⟩ := Option.map_eq_some_iff.mp hpayload
    exact ⟨g, rfl⟩
  · rw [Response.ofJson?_toJson_success, Success.ofJson?_toJson_tokens] at h
    obtain ⟨_, hpayload, rfl⟩ := Option.map_eq_some_iff.mp h
    obtain ⟨u, -, rfl⟩ := Option.map_eq_some_iff.mp hpayload
    exact ⟨u, rfl⟩

/-- A numbered line with a mark comes back, and so does a tree that was read from fields in another
order and from a node that is written as an array. -/
theorem messages_lossless_line :
    let r : Response := .success 7 (.tree [.line 1 [.span ["a"] [.mark "x"]]])
    let j : Json := .obj [("payload", .obj [("more", .null), ("tree", .arr
      [.obj [("tagName", .str "b"), ("type", .str "element")], .arr [.str "text", .str "x"]])]),
      ("id", .int 7), ("type", .str "success")]
    let s : Response := .success 7 (.tree [.element "b" ⟨[], ∅⟩ [], .text "x"])
    r.Writable ∧ Response.ofJson? r.toJson = some r ∧
      Response.ofJson? j = some s ∧ Response.ofJson? s.toJson = some s := by
  intro r j s
  have hr : r.Writable := by decide
  have hs : Response.ofJson? j = some s := rfl
  exact ⟨hr, messages_lossless.2.1 r hr, hs, messages_lossless.2.2.2.2.2 j s hs⟩

end Highlighting
