import Mathlib.Data.List.Nodup
import StakeAccounting.Document

/-!
# Reading the parts of a structure

A structure is read part by part, and a part of a table is found by its name. So the order
of the fields does not matter, and where a part has several names it does not matter which
of them is used, as long as only one of them is (`Record.find?_congr`). Two of them in one
table are an error for the part (`Record.exists_repeated`), and thereby for the structure,
which is read only where each of its parts is (`Decoded.bind_eq_ok`).
-/

namespace StakeAccounting

namespace Decoded

variable {α β : Type} {a : α} {b : β} {x : Decoded α} {f : α → Decoded β}

/-- After a part that is read comes the rest. -/
@[simp] theorem ok_bind (a : α) (f : α → Decoded β) : (.ok a >>= f : Decoded β) = f a := (rfl)

/-- Two parts are read where the first is, and the second after it. -/
theorem bind_eq_ok : (x >>= f) = .ok b ↔ ∃ a, x = .ok a ∧ f a = .ok b := by
  cases x with
  | error e => exact ⟨nofun, fun ⟨_, h, _⟩ => nomatch h⟩
  | ok a => exact ⟨fun h => ⟨a, rfl, h⟩, fun ⟨_, h, hf⟩ => Except.ok.inj h ▸ hf⟩

end Decoded

namespace Record

variable {α : Type} {fs gs : List (String × Document)} {names : List String} {n m : String}
  {d d' : Document} {position : Nat} {read : Document → Decoded α} {a : α}

@[simp] theorem ofDocument_table (c : Convention) (size : Nat) :
    ofDocument c size (.table fs) = .ok (named fs) := rfl

/-- A part that was read was found. -/
theorem required_eq_ok {r : Record} (h : r.required position names read = .ok a) :
    ∃ d, r.find? position names = .ok (some d) ∧ read d = .ok a := by
  obtain ⟨found, hfound, hread⟩ := Decoded.bind_eq_ok.mp h
  cases found with
  | none => cases hread
  | some d => exact ⟨d, hfound, hread⟩

/-! ## The fields of a part -/

/-- **The fields of a part**: those with one of its names. -/
def fieldsOf (names : List String) (fs : List (String × Document)) : List (String × Document) :=
  fs.filter fun field => names.contains field.1

theorem mem_fieldsOf {field : String × Document} :
    field ∈ fieldsOf names fs ↔ field ∈ fs ∧ field.1 ∈ names := by
  unfold fieldsOf
  rw [List.mem_filter, List.contains_iff_mem]

theorem fieldsOf_eq_nil (h : ∀ field ∈ fs, field.1 ∉ names) : fieldsOf names fs = [] :=
  List.eq_nil_iff_forall_not_mem.mpr fun field hmem =>
    h field (mem_fieldsOf.mp hmem).1 (mem_fieldsOf.mp hmem).2

theorem fieldsOf_append (fs gs : List (String × Document)) :
    fieldsOf names (fs ++ gs) = fieldsOf names fs ++ fieldsOf names gs := List.filter_append ..

theorem fieldsOf_append_of_not (h : n ∉ names) :
    fieldsOf names (fs ++ [(n, d)]) = fieldsOf names fs := by
  have hnone : fieldsOf names [(n, d)] = [] :=
    fieldsOf_eq_nil fun field hmem => List.mem_singleton.mp hmem ▸ h
  rw [fieldsOf_append, hnone, List.append_nil]

theorem fieldsOf_append_of_absent (h : ∀ field ∈ fs, field.1 ∉ names) (hn : n ∈ names) :
    fieldsOf names (fs ++ [(n, d)]) = [(n, d)] := by
  rw [fieldsOf_append, fieldsOf_eq_nil h, List.nil_append]
  exact List.filter_eq_self.mpr fun field hmem =>
    List.contains_iff_mem.mpr (List.mem_singleton.mp hmem ▸ hn)

/-- A part is told from its fields. -/
theorem find?_named : (named fs).find? position names =
    match fieldsOf names fs with
    | [] => .ok none
    | [(_, d)] => .ok (some d)
    | (name, _) :: _ => .error (.repeatedField name) := rfl

/-- A field of another name does not matter. -/
theorem required_append_of_not (h : n ∉ names) :
    (named (fs ++ [(n, d)])).required position names read =
      (named fs).required position names read := by
  unfold required
  rw [find?_named, find?_named, fieldsOf_append_of_not h]

/-- A part without a field has its default. -/
theorem withDefault_of_absent (h : ∀ field ∈ fs, field.1 ∉ names) :
    (named fs).withDefault position names read a = .ok a := by
  unfold withDefault
  rw [find?_named, fieldsOf_eq_nil h]
  rfl

/-- A part with a field has what that says. -/
theorem withDefault_append_of_absent (h : ∀ field ∈ fs, field.1 ∉ names) (hn : n ∈ names) :
    (named (fs ++ [(n, d)])).withDefault position names read a = read d := by
  unfold withDefault
  rw [find?_named, fieldsOf_append_of_absent h hn]
  rfl

/-! ## Order and names of fields -/

/-- **A part is found whatever the order of the fields and whichever of its names is used.**
`rename` gives all names of the part one name, `m`; of two tables that are the same after
that, but for the order, and have no name twice, the part is the same. -/
theorem find?_congr {rename : String → String}
    (hnames : ∀ n, n ∈ names ↔ rename n = m)
    (hperm : (fs.map (Prod.map rename id)).Perm (gs.map (Prod.map rename id)))
    (honce : (gs.map fun field => rename field.1).Nodup) :
    (named fs).find? position names = (named gs).find? position names := by
  have hcontains : ∀ n, names.contains n = (rename n == m) := fun n => by
    rw [Bool.eq_iff_iff, List.contains_iff_mem, beq_iff_eq]
    exact hnames n
  have hrenamed : ∀ hs, (fieldsOf names hs).map (Prod.map rename id) =
      (hs.map (Prod.map rename id)).filter fun field => field.1 == m := by
    intro hs
    unfold fieldsOf
    rw [List.filter_map]
    simp only [hcontains]
    rfl
  have hsame : ((fieldsOf names fs).map (Prod.map rename id)).Perm
      ((fieldsOf names gs).map (Prod.map rename id)) := by
    rw [hrenamed, hrenamed]
    exact hperm.filter _
  have hone : (fieldsOf names gs).length ≤ 1 := by
    -- the fields of the part have one name, which is there once
    have hname : (fieldsOf names gs).map (fun field => rename field.1) =
        List.replicate (fieldsOf names gs).length m := by
      refine List.eq_replicate_iff.mpr ⟨List.length_map _, fun name hmem => ?_⟩
      obtain ⟨field, hfield, rfl⟩ := List.mem_map.mp hmem
      exact (hnames field.1).mp (mem_fieldsOf.mp hfield).2
    have hsub : (fieldsOf names gs).Sublist gs := List.filter_sublist
    exact List.nodup_replicate.mp (hname ▸ honce.sublist (hsub.map _))
  have hlength := hsame.length_eq
  rw [List.length_map, List.length_map] at hlength
  rw [find?_named, find?_named]
  match fieldsOf names fs, fieldsOf names gs, hone, hlength, hsame with
  | [], [], _, _, _ => rfl
  | [(_, d)], [(_, d')], _, _, hsame =>
    rw [List.map_singleton, List.map_singleton, List.perm_singleton, List.singleton_inj] at hsame
    obtain rfl : d = d' := congrArg Prod.snd hsame
    rfl
  | [], _ :: _, _, hlength, _ | _ :: _, [], _, hlength, _ => simp at hlength
  | _, _ :: _ :: _, hone, _, _ => simp at hone
  | _ :: _ :: _, [_], _, hlength, _ => simp at hlength

/-- **Two names of one part in one table are an error.** -/
theorem exists_repeated (hn : n ∈ names) (hm : m ∈ names) (hne : n ≠ m)
    (hfirst : (n, d) ∈ fs) (hsecond : (m, d') ∈ fs) :
    ∃ name, (named fs).find? position names = .error (.repeatedField name) := by
  have hfirst' : (n, d) ∈ fieldsOf names fs := mem_fieldsOf.mpr ⟨hfirst, hn⟩
  have hsecond' : (m, d') ∈ fieldsOf names fs := mem_fieldsOf.mpr ⟨hsecond, hm⟩
  rw [find?_named]
  split
  · next hnone => rw [hnone] at hfirst'; cases hfirst'
  · next hone =>
    rw [hone, List.mem_singleton] at hfirst' hsecond'
    exact absurd (congrArg Prod.fst (hfirst'.trans hsecond'.symm)) hne
  · exact ⟨_, rfl⟩

end Record

end StakeAccounting
