import Mathlib.Data.List.AList
import Mathlib.Data.List.Dedup

/-!
# Keyed maps and iteration in an arbitrary order

A finite map is an association list without repeated keys (`AList`).  A `range`
loop over such a map visits every binding exactly once, in an order that the
language leaves open.  `range order m` is the visit in which the keys named by
`order` come first, in that order, and the remaining keys follow.

Every list `order` gives a complete visit, so a statement for all `order` is a
statement for all iteration orders.
-/

namespace Moxy
namespace Lib

universe u v

/-- A finite map from `K` to `V`. -/
abbrev Map (K : Type u) (V : Type v) : Type (max u v) :=
  AList (fun _ : K => V)

namespace Map

variable {K : Type u} {V : Type v} [DecidableEq K]

/-- Reading a key after an insertion. -/
theorem lookup_insert_ite
    (m : Map K V) (k k' : K) (x : V) :
    (m.insert k' x).lookup k =
      if k = k' then some x else m.lookup k := by
  by_cases h : k = k'
  · subst h
    simp
  · rw [AList.lookup_insert_ne h, if_neg h]

/-- Reading a key after a deletion. -/
theorem lookup_erase_ite
    (m : Map K V) (k k' : K) :
    (m.erase k').lookup k =
      if k = k' then none else m.lookup k := by
  by_cases h : k = k'
  · subst h
    simp
  · rw [AList.lookup_erase_ne h, if_neg h]

/-- Reading a key after the value of a present key was replaced. -/
theorem lookup_replace_ite
    (m : Map K V) (k k' : K) (x : V) :
    (m.replace k' x).lookup k =
      if k = k' then (m.lookup k).map (fun _ => x) else m.lookup k := by
  show List.dlookup k (List.kreplace k' x m.entries) =
    if k = k' then (List.dlookup k m.entries).map (fun _ => x)
    else List.dlookup k m.entries
  induction m.entries with
  | nil =>
      simp [List.kreplace]
  | cons binding rest ih =>
      obtain ⟨key, y⟩ := binding
      unfold List.kreplace at ih ⊢
      rw [List.lookmap_cons]
      by_cases hkey : k' = key
      · subst hkey
        by_cases hk : k = k'
        · subst hk
          simp
        · simp [hk, List.dlookup_cons_ne _ ⟨k', _⟩ hk]
      · by_cases hk : k = key
        · subst hk
          have hne : ¬ k = k' := fun h => hkey h.symm
          simp [hkey, hne]
        · have hother : ∀ l : List (Sigma (fun _ : K => V)),
              List.dlookup k (⟨key, y⟩ :: l) = List.dlookup k l :=
            fun l => List.dlookup_cons_ne l _ hk
          simp only [hkey, if_false, hother]
          exact ih

/-- Writing back the value of a key changes nothing. -/
theorem replace_self
    {m : Map K V} {k : K} {x : V}
    (h : m.lookup k = some x) :
    m.replace k x = m := by
  rw [AList.ext_iff]
  exact List.kreplace_self m.nodupKeys
    ((List.mem_dlookup_iff m.nodupKeys).mp h)

/-- A map without bindings is the empty map. -/
theorem eq_empty_of_lookup
    {m : Map K V}
    (h : ∀ k, m.lookup k = none) :
    m = ∅ := by
  rw [AList.ext_iff]
  rcases hentries : m.entries with _ | ⟨⟨k, x⟩, rest⟩
  · rfl
  · exfalso
    have hmem : k ∈ m := by
      rw [AList.mem_keys, AList.keys, hentries]
      simp
    rw [← AList.lookup_isSome, h k] at hmem
    cases hmem

/-- The order in which a visit meets the keys of `m`. -/
def visit (order : List K) (m : Map K V) : List K :=
  order.dedup ++ m.keys.filter (fun k => k ∉ order)

/-- The bindings of `m`, in the order of the visit. -/
def range (order : List K) (m : Map K V) : List (K × V) :=
  (visit order m).filterMap
    (fun k => (m.lookup k).map (fun x => (k, x)))

theorem visit_nodup
    (order : List K) (m : Map K V) :
    (visit order m).Nodup := by
  refine List.Nodup.append (List.nodup_dedup order)
    (m.keys_nodup.filter _) ?_
  intro k hk hk'
  have hin : k ∈ order := List.mem_dedup.mp hk
  have hout : k ∉ order := by
    simpa using (List.mem_filter.mp hk').2
  exact hout hin

theorem mem_visit_of_mem
    (order : List K) (m : Map K V) {k : K}
    (hk : k ∈ m) :
    k ∈ visit order m := by
  by_cases h : k ∈ order
  · exact List.mem_append_left _ (List.mem_dedup.mpr h)
  · exact List.mem_append_right _
      (List.mem_filter.mpr ⟨AList.mem_keys.mp hk, by simpa using h⟩)

/-- A visit meets exactly the bindings of the map. -/
@[simp] theorem mem_range
    (order : List K) (m : Map K V) (k : K) (x : V) :
    (k, x) ∈ range order m ↔ m.lookup k = some x := by
  unfold range
  rw [List.mem_filterMap]
  constructor
  · rintro ⟨k', _, hx⟩
    obtain ⟨y, hy, he⟩ := Option.map_eq_some_iff.mp hx
    cases he
    exact hy
  · intro hx
    have hk : k ∈ m := by
      rw [← AList.lookup_isSome, hx]
      rfl
    exact ⟨k, mem_visit_of_mem order m hk, by simp [hx]⟩

/-- No key is visited twice. -/
theorem range_keys_nodup
    (order : List K) (m : Map K V) :
    ((range order m).map Prod.fst).Nodup := by
  have hkeys :
      (range order m).map Prod.fst =
        (visit order m).filter (fun k => (m.lookup k).isSome) := by
    unfold range
    rw [List.map_filterMap, ← List.filterMap_eq_filter]
    congr 1
    funext k
    cases h : m.lookup k <;> simp [Option.guard, h]
  rw [hkeys]
  exact (visit_nodup order m).filter _

theorem range_nodup
    (order : List K) (m : Map K V) :
    (range order m).Nodup :=
  List.Nodup.of_map Prod.fst (range_keys_nodup order m)

/-- Every key can be the first one that a visit meets. -/
theorem range_first
    {m : Map K V} {k : K} {x : V}
    (h : m.lookup k = some x) :
    ∃ rest, range [k] m = (k, x) :: rest := by
  refine ⟨(m.keys.filter (fun k' => k' ∉ [k])).filterMap
    (fun k' => (m.lookup k').map (fun y => (k', y))), ?_⟩
  simp [range, visit, h]

/-- Two visits of one map differ only in their order. -/
theorem range_perm
    (order order' : List K) {m m' : Map K V}
    (h : ∀ k, m.lookup k = m'.lookup k) :
    (range order m).Perm (range order' m') := by
  rw [List.perm_ext_iff_of_nodup
    (range_nodup order m) (range_nodup order' m')]
  rintro ⟨k, x⟩
  rw [mem_range, mem_range, h k]

/-- A visit after the insertion of a new key meets one more binding. -/
theorem range_insert_perm
    (order order' : List K) {m : Map K V} {k : K}
    (hk : m.lookup k = none) (x : V) :
    (range order (m.insert k x)).Perm ((k, x) :: range order' m) := by
  rw [List.perm_ext_iff_of_nodup (range_nodup _ _)
    (List.nodup_cons.mpr ⟨by simp [hk], range_nodup _ _⟩)]
  rintro ⟨k', y⟩
  rw [mem_range, List.mem_cons, mem_range, lookup_insert_ite]
  by_cases h : k' = k
  · subst h
    simp [hk, eq_comm]
  · simp [h]

/-- A visit meets a deleted binding and the visit of what is left. -/
theorem range_erase_perm
    (order order' : List K) {m : Map K V} {k : K} {x : V}
    (hk : m.lookup k = some x) :
    (range order m).Perm ((k, x) :: range order' (m.erase k)) := by
  rw [List.perm_ext_iff_of_nodup (range_nodup _ _)
    (List.nodup_cons.mpr ⟨by simp, range_nodup _ _⟩)]
  rintro ⟨k', y⟩
  rw [mem_range, List.mem_cons, mem_range, lookup_erase_ite]
  by_cases h : k' = k
  · subst h
    simp [hk, eq_comm]
  · simp [h]

end Map

end Lib
end Moxy
