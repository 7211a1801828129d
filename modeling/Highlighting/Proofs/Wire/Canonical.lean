import Mathlib.Data.List.Nodup
import Highlighting.Json.Basic

/-! Encoding and decoding of the parts of records: lists, maps, and free values. A free value comes
back unchanged where each of its objects has its keys once and in order, which is what settling a
value makes of it. -/

namespace Highlighting

/-! ### Maps -/

namespace Dict

variable {α : Type}

theorem insertEntry_of_lt {key : String} {value : α} {l : List (String × α)}
    (h : ∀ e ∈ l, e.1 < key) : insertEntry key value l = l ++ [(key, value)] := by
  induction l with
  | nil => rfl
  | cons e l ih =>
    obtain ⟨he, hl⟩ := List.forall_mem_cons.mp h
    have hne : key ≠ e.1 := by
      rintro rfl
      exact String.lt_irrefl _ he
    rw [insertEntry, if_neg (String.lt_asymm he), if_neg hne, ih hl, List.cons_append]

theorem entries_foldl_insert {l : List (String × α)} {d : Dict α}
    (h : (d.entries ++ l).Pairwise fun a b => a.1 < b.1) :
    (l.foldl (fun d e => d.insert e.1 e.2) d).entries = d.entries ++ l := by
  induction l generalizing d with
  | nil => rw [List.foldl_nil, List.append_nil]
  | cons e l ih =>
    have hbefore : ∀ a ∈ d.entries, a.1 < e.1 := fun a ha =>
      (List.pairwise_append.mp h).2.2 a ha e List.mem_cons_self
    have hinsert : (d.insert e.1 e.2).entries = d.entries ++ [e] := insertEntry_of_lt hbefore
    have h' : ((d.insert e.1 e.2).entries ++ l).Pairwise fun a b => a.1 < b.1 := by
      rwa [hinsert, List.append_assoc, List.singleton_append]
    rw [List.foldl_cons, ih h', hinsert, List.append_assoc, List.singleton_append]

/-- Entries that stand in order are the entries of their map. -/
theorem entries_ofList {l : List (String × α)} (h : l.Pairwise fun a b => a.1 < b.1) :
    (ofList l).entries = l := entries_foldl_insert h

theorem ofList_entries (d : Dict α) : ofList d.entries = d := by
  have h := entries_ofList d.increasing
  cases d
  cases hd : ofList _
  simp_all

theorem mem_of_mem_foldl_insert {l : List (String × α)} {d : Dict α} {e : String × α}
    (h : e ∈ (l.foldl (fun d e => d.insert e.1 e.2) d).entries) : e ∈ d.entries ∨ e ∈ l := by
  induction l generalizing d with
  | nil => exact .inl h
  | cons a l ih =>
    rcases ih h with hinsert | hl
    · rcases mem_insertEntry hinsert with rfl | hd
      · exact .inr List.mem_cons_self
      · exact .inl hd
    · exact .inr (List.mem_cons_of_mem a hl)

theorem mem_of_mem_ofList {l : List (String × α)} {e : String × α}
    (h : e ∈ (ofList l).entries) : e ∈ l :=
  (mem_of_mem_foldl_insert h).resolve_left List.not_mem_nil

end Dict

namespace Json

/-! ### Free values -/

mutual

/-- Each object in the value has its keys once and in order. -/
def Canonical : Json → Prop
  | .arr items => CanonicalItems items
  | .obj fields => (fields.Pairwise fun a b => a.1 < b.1) ∧ CanonicalFields fields
  | _ => True

def CanonicalItems : List Json → Prop
  | [] => True
  | j :: rest => j.Canonical ∧ CanonicalItems rest

def CanonicalFields : List (String × Json) → Prop
  | [] => True
  | (_, j) :: rest => j.Canonical ∧ CanonicalFields rest

end

mutual

instance decidableCanonical : ∀ j : Json, Decidable j.Canonical
  | .null | .bool _ | .int _ | .double _ | .str _ => .isTrue trivial
  | .arr items => decidableCanonicalItems items
  | .obj fields =>
    @instDecidableAnd _ _ inferInstance (decidableCanonicalFields fields)

instance decidableCanonicalItems : ∀ items : List Json, Decidable (CanonicalItems items)
  | [] => .isTrue trivial
  | j :: rest => @instDecidableAnd _ _ (decidableCanonical j) (decidableCanonicalItems rest)

instance decidableCanonicalFields :
    ∀ fields : List (String × Json), Decidable (CanonicalFields fields)
  | [] => .isTrue trivial
  | (_, j) :: rest => @instDecidableAnd _ _ (decidableCanonical j) (decidableCanonicalFields rest)

end

theorem canonicalFields_iff {fields : List (String × Json)} :
    CanonicalFields fields ↔ ∀ e ∈ fields, e.2.Canonical := by
  induction fields with
  | nil => simp [CanonicalFields]
  | cons e rest ih => simp [CanonicalFields, ih]

mutual

theorem settle_of_canonical : ∀ j : Json, j.Canonical → j.settle = j
  | .null, _ | .bool _, _ | .int _, _ | .double _, _ | .str _, _ => rfl
  | .arr items, h => by rw [settle, settleItems_of_canonical items h]
  | .obj fields, h => by
    rw [settle, settleFields_of_canonical fields h.2, Dict.entries_ofList h.1]

theorem settleItems_of_canonical :
    ∀ items : List Json, CanonicalItems items → settleItems items = items
  | [], _ => rfl
  | j :: rest, h => by
    rw [settleItems, settle_of_canonical j h.1, settleItems_of_canonical rest h.2]

theorem settleFields_of_canonical :
    ∀ fields : List (String × Json), CanonicalFields fields → settleFields fields = fields
  | [], _ => rfl
  | (key, j) :: rest, h => by
    rw [settleFields, settle_of_canonical j h.1, settleFields_of_canonical rest h.2]

end

mutual

theorem canonical_settle : ∀ j : Json, j.settle.Canonical
  | .null | .bool _ | .int _ | .double _ | .str _ => trivial
  | .arr items => canonicalItems_settleItems items
  | .obj fields => by
    refine ⟨(Dict.ofList (settleFields fields)).increasing, canonicalFields_iff.mpr fun e he => ?_⟩
    exact canonicalFields_iff.mp (canonicalFields_settleFields fields) e (Dict.mem_of_mem_ofList he)

theorem canonicalItems_settleItems : ∀ items : List Json, CanonicalItems (settleItems items)
  | [] => trivial
  | j :: rest => ⟨canonical_settle j, canonicalItems_settleItems rest⟩

theorem canonicalFields_settleFields :
    ∀ fields : List (String × Json), CanonicalFields (settleFields fields)
  | [] => trivial
  | (_, j) :: rest => ⟨canonical_settle j, canonicalFields_settleFields rest⟩

end

/-! ### Fields -/

section Fields

variable {α : Type} {fields : List (String × Json)} {key name : String} {j : Json} {default : α}
  {decode : Json → Option α}

/-- Fields with different names are a record of any names. -/
theorem record?_obj (names : List String) (h : (fields.map Prod.fst).Nodup) :
    (obj fields).record? names = some fields := by
  refine if_pos (List.all_eq_true.mpr fun name _ => decide_eq_true ?_)
  have hcount := List.nodup_iff_count_le_one.mp h name
  rwa [List.count, List.countP_map] at hcount

@[simp] theorem required?_nil : required? [] name decode = none := rfl

@[simp] theorem required?_cons : required? ((key, j) :: fields) name decode =
    if name = key then decode j else required? fields name decode := by
  unfold required?
  by_cases h : name = key
  · simp [h]
  · simp [List.lookup_cons, beq_false_of_ne h, h]

@[simp] theorem optional?_nil : optional? [] name default decode = some default := rfl

@[simp] theorem optional?_cons : optional? ((key, j) :: fields) name default decode =
    if name = key then decode j else optional? fields name default decode := by
  unfold optional?
  by_cases h : name = key
  · simp [h]
  · simp [List.lookup_cons, beq_false_of_ne h, h]

theorem exists_of_required? {a : α} (h : required? fields name decode = some a) :
    ∃ j, decode j = some a := by
  obtain ⟨j, -, hj⟩ := Option.bind_eq_some_iff.mp h
  exact ⟨j, hj⟩

end Fields

/-! ### Lists and maps -/

variable {α : Type} {encode : α → Json} {decode : Json → Option α}

theorem mapM_map_eq_some {l : List α} (h : ∀ a ∈ l, decode (encode a) = some a) :
    (l.map encode).mapM decode = some l := by
  induction l with
  | nil => rfl
  | cons a l ih =>
    obtain ⟨ha, hl⟩ := List.forall_mem_cons.mp h
    simp [ha, ih hl]

/-- A list comes back if each of its items does. -/
theorem asArray?_arr_map {l : List α} (h : ∀ a ∈ l, decode (encode a) = some a) :
    (arr (l.map encode)).asArray? decode = some l := mapM_map_eq_some h

theorem asStrings?_ofStrings (l : List String) : (ofStrings l).asStrings? = some l :=
  asArray?_arr_map fun _ _ => rfl

theorem exists_of_mapM_eq_some {items : List Json} {l : List α} (h : items.mapM decode = some l) :
    ∀ a ∈ l, ∃ j ∈ items, decode j = some a := by
  induction items generalizing l with
  | nil =>
    obtain rfl : [] = l := by simpa using h
    intro a ha
    exact absurd ha List.not_mem_nil
  | cons j items ih =>
    rw [List.mapM_cons] at h
    obtain ⟨b, hb, h⟩ := Option.bind_eq_some_iff.mp h
    obtain ⟨rest, hrest, h⟩ := Option.bind_eq_some_iff.mp h
    obtain rfl := Option.some.inj h
    intro a ha
    rcases List.mem_cons.mp ha with rfl | ha
    · exact ⟨j, List.mem_cons_self, hb⟩
    · obtain ⟨i, hi, hdecode⟩ := ih hrest a ha
      exact ⟨i, List.mem_cons_of_mem j hi, hdecode⟩

/-- What is in a decoded list was decoded. -/
theorem exists_of_asArray? {j : Json} {l : List α} (h : j.asArray? decode = some l) :
    ∀ a ∈ l, ∃ i, decode i = some a := by
  cases j with
  | arr items =>
    intro a ha
    obtain ⟨i, -, hi⟩ := exists_of_mapM_eq_some h a ha
    exact ⟨i, hi⟩
  | _ => cases h

/-- A map comes back if each of its values does. -/
theorem asDict?_ofDict {d : Dict α} (h : ∀ a, decode (encode a) = some a) :
    (ofDict encode d).asDict? decode = some d := by
  have hentries : (d.entries.map fun e => (e.1, encode e.2)).mapM
      (fun e => (decode e.2).map (e.1, ·)) = some d.entries := by
    induction d.entries with
    | nil => rfl
    | cons e rest ih => simp [h, ih]
  simp [ofDict, asDict?, hentries, Dict.ofList_entries]

end Json

end Highlighting
