import Highlighting.Node.Json
import Highlighting.Proofs.Wire.Canonical

/-! The JSON form of nodes can be read back. The class list of an element shares an object with its
further properties, so none of these may have the name of the class list; what is read never has
such a property. -/

namespace Highlighting

namespace Properties

/-- No further property is named as the class list, and each is a settled value. -/
structure Writable (p : Properties) : Prop where
  ne_classKey : ∀ e ∈ p.data.entries, e.1 ≠ classKey
  canonical : ∀ e ∈ p.data.entries, e.2.Canonical

theorem writable_iff {p : Properties} :
    p.Writable ↔ ∀ e ∈ p.data.entries, e.1 ≠ classKey ∧ e.2.Canonical :=
  ⟨fun h e he => ⟨h.ne_classKey e he, h.canonical e he⟩,
    fun h => ⟨fun e he => (h e he).1, fun e he => (h e he).2⟩⟩

instance (p : Properties) : Decidable p.Writable := decidable_of_iff' _ writable_iff

theorem Writable.filter_entries {p : Properties} (hp : p.Writable) :
    p.data.entries.filter (·.1 != classKey) = p.data.entries :=
  List.filter_eq_self.mpr fun e he => bne_iff_ne.mpr (hp.ne_classKey e he)

theorem Writable.countP_entries {p : Properties} (hp : p.Writable) :
    p.data.entries.countP (·.1 == classKey) = 0 :=
  List.countP_eq_zero.mpr fun e he => by simpa using hp.ne_classKey e he

theorem Writable.lookup_entries {p : Properties} (hp : p.Writable) :
    p.data.entries.lookup classKey = none :=
  List.lookup_eq_none_iff.mpr fun e he => by simpa using (hp.ne_classKey e he).symm

theorem Writable.settle_entries {p : Properties} (hp : p.Writable) :
    (p.data.entries.map fun e => (e.1, e.2.settle)) = p.data.entries :=
  (List.map_congr_left (g := id) fun e he => by
    show (e.1, e.2.settle) = e
    rw [Json.settle_of_canonical e.2 (hp.canonical e he)]).trans (List.map_id _)

theorem ofJson?_toJson {p : Properties} (hp : p.Writable) : ofJson? p.toJson = some p := by
  obtain ⟨classes, data⟩ := p
  have hfilter := hp.filter_entries
  have hcount := hp.countP_entries
  have hlookup := hp.lookup_entries
  have hsettle := hp.settle_entries
  cases classes with
  | nil =>
    simp [toJson, ofJson?, Json.record?, Json.optional?, hfilter, hcount, hlookup, hsettle,
      Dict.ofList_entries]
  | cons c classes =>
    simp [toJson, ofJson?, Json.record?, Json.optional?, hfilter, hcount, hsettle,
      Dict.ofList_entries, Json.asStrings?_ofStrings]

theorem writable_of_ofJson? {j : Json} {p : Properties} (h : ofJson? j = some p) : p.Writable := by
  cases j with
  | obj fields =>
    obtain ⟨known, -, h⟩ := Option.bind_eq_some_iff.mp h
    obtain ⟨classes, -, h⟩ := Option.bind_eq_some_iff.mp h
    obtain rfl := Option.some.inj h
    refine ⟨fun e he => ?_, fun e he => ?_⟩
    all_goals
      obtain ⟨field, hfield, rfl⟩ := List.mem_map.mp (Dict.mem_of_mem_ofList he)
    · exact bne_iff_ne.mp (List.mem_filter.mp hfield).2
    · exact Json.canonical_settle field.2
  | _ => cases h

end Properties

/-! ### Written nodes -/

mutual

/-- The properties of each element can be written. -/
def Node.Writable : Node → Prop
  | .text _ => True
  | .element _ properties children => properties.Writable ∧ Forest.Writable children

def Forest.Writable : Forest → Prop
  | [] => True
  | n :: rest => n.Writable ∧ Forest.Writable rest

end

mutual

instance Node.decidableWritable : ∀ n : Node, Decidable n.Writable
  | .text _ => .isTrue trivial
  | .element _ _ children => @instDecidableAnd _ _ inferInstance (Forest.decidableWritable children)

instance Forest.decidableWritable : ∀ f : Forest, Decidable (Forest.Writable f)
  | [] => .isTrue trivial
  | n :: rest => @instDecidableAnd _ _ (Node.decidableWritable n) (Forest.decidableWritable rest)

end

mutual

theorem Node.ofJson?_toJson (level : Json.Level) :
    ∀ n : Node, n.Writable → Node.ofJson? level n.toJson = some n
  | .text value, _ => by
    simp [Node.toJson, Node.ofJson?, Node.ofRecord?, Json.tagged?, Json.kind?, Node.kinds,
      Json.record?_obj, Json.asString?]
  | .element tag properties children, ⟨hproperties, hchildren⟩ => by
    have hfield : Forest.ofField? [("type", .str "element"), ("tagName", .str tag),
        ("properties", properties.toJson), ("children", .arr (Forest.toJsons children))] =
        some children := by
      simp [Forest.ofField?, Forest.ofJson?, Forest.ofJsons?_toJsons .inner children hchildren]
    simp [Node.toJson, Node.ofJson?, Node.ofRecord?, hfield, Json.tagged?, Json.kind?, Node.kinds,
      Json.record?_obj, Json.asString?, Properties.ofJson?_toJson hproperties]

theorem Forest.ofJsons?_toJsons (level : Json.Level) :
    ∀ f : Forest, Forest.Writable f → Forest.ofJsons? level (Forest.toJsons f) = some f
  | [], _ => rfl
  | n :: rest, ⟨hn, hrest⟩ => by
    simp [Forest.toJsons, Forest.ofJsons?, Node.ofJson?_toJson level n hn,
      Forest.ofJsons?_toJsons level rest hrest]

end

theorem Forest.ofJson?_toJson (level : Json.Level) {f : Forest} (hf : Forest.Writable f) :
    Forest.ofJson? level (Forest.toJson f) = some f := Forest.ofJsons?_toJsons level f hf

/-! ### Read nodes -/

theorem Node.writable_of_ofRecord? {level : Json.Level} {j : Json} {children : Option Forest}
    {n : Node} (h : Node.ofRecord? level j children = some n)
    (hchildren : ∀ f, children = some f → Forest.Writable f) : n.Writable := by
  obtain ⟨⟨kind, record⟩, -, h⟩ := Option.bind_eq_some_iff.mp h
  dsimp only at h
  split at h
  · obtain ⟨fields, -, h⟩ := Option.bind_eq_some_iff.mp h
    obtain ⟨value, -, h⟩ := Option.bind_eq_some_iff.mp h
    obtain rfl := Option.some.inj h
    trivial
  · obtain ⟨fields, -, h⟩ := Option.bind_eq_some_iff.mp h
    obtain ⟨tag, -, h⟩ := Option.bind_eq_some_iff.mp h
    obtain ⟨properties, hproperties, h⟩ := Option.bind_eq_some_iff.mp h
    obtain ⟨f, hf, h⟩ := Option.bind_eq_some_iff.mp h
    obtain rfl := Option.some.inj h
    refine ⟨?_, hchildren f hf⟩
    unfold Json.optional? at hproperties
    split at hproperties
    · obtain rfl := Option.some.inj hproperties
      exact ⟨fun _ he => absurd he List.not_mem_nil, fun _ he => absurd he List.not_mem_nil⟩
    · exact Properties.writable_of_ofJson? hproperties
  · cases h

mutual

theorem Node.writable_of_ofJson? (level : Json.Level) :
    ∀ (j : Json) (n : Node), Node.ofJson? level j = some n → n.Writable
  | .obj fields, _, h => Node.writable_of_ofRecord? h (Forest.writable_of_ofField? fields)
  | .arr items, _, h => Node.writable_of_ofRecord? h (Forest.writable_of_ofPlace? items)

theorem Forest.writable_of_ofJson? (level : Json.Level) :
    ∀ (j : Json) (f : Forest), Forest.ofJson? level j = some f → Forest.Writable f
  | .arr items, _, h => Forest.writable_of_ofJsons? level items _ h

theorem Forest.writable_of_ofJsons? (level : Json.Level) :
    ∀ (items : List Json) (f : Forest), Forest.ofJsons? level items = some f → Forest.Writable f
  | [], _, h => by
    obtain rfl := Option.some.inj h
    trivial
  | j :: rest, _, h => by
    obtain ⟨n, hn, h⟩ := Option.bind_eq_some_iff.mp h
    obtain ⟨f, hf, h⟩ := Option.bind_eq_some_iff.mp h
    obtain rfl := Option.some.inj h
    exact ⟨Node.writable_of_ofJson? level j n hn, Forest.writable_of_ofJsons? level rest f hf⟩

theorem Forest.writable_of_ofField? :
    ∀ (fields : List (String × Json)) (f : Forest),
      Forest.ofField? fields = some f → Forest.Writable f
  | [], _, h => by
    obtain rfl := Option.some.inj h
    trivial
  | (key, j) :: rest, f, h => by
    rw [Forest.ofField?] at h
    split at h
    · exact Forest.writable_of_ofJson? .inner j f h
    · exact Forest.writable_of_ofField? rest f h

theorem Forest.writable_of_ofPlace? :
    ∀ (items : List Json) (f : Forest), Forest.ofPlace? items = some f → Forest.Writable f
  | [_, _, _, j], f, h => Forest.writable_of_ofJson? .inner j f h
  | [], _, h | [_], _, h | [_, _], _, h | [_, _, _], _, h | _ :: _ :: _ :: _ :: _ :: _, _, h => by
    obtain rfl := Option.some.inj h
    trivial

end

end Highlighting
