import GraphqlOrm.Foundation.Outcome
import Mathlib.Data.List.Nodup

/-!
# Lines of descent

Records that name at most one parent each, read one after another from a youngest
record back to its root. The walk is bounded by fuel, and never lacks it when fuel
exceeds the number of records that can be read.
-/
namespace Lineage

variable {ι α ε : Type}

section Walk

variable (load : ι → Except ε α) (parent : α → Option ι)

/-- The records from `current` to its root, youngest first. An identifier that was
seen before is an error, and no result means that the fuel ran out. -/
def walk [DecidableEq ι] (again : ι → ε) : Nat → List ι → ι → Option (Except ε (List α))
  | 0, _, _ => none
  | fuel + 1, seen, current =>
    if current ∈ seen then some (.error (again current))
    else match load current with
      | .error e => some (.error e)
      | .ok record =>
        match parent record with
        | none => some (.ok [record])
        | some next =>
          (walk again fuel (current :: seen) next).map fun rest => rest.map (record :: ·)

/-- The line of descent of an identifier: the identifiers it goes through, and the record of each. -/
inductive Line : ι → List ι → List α → Prop where
  | root {current : ι} {record : α} (loaded : load current = .ok record)
      (orphan : parent record = none) : Line current [current] [record]
  | child {current next : ι} {record : α} {ids : List ι} {records : List α}
      (loaded : load current = .ok record) (link : parent record = some next)
      (rest : Line next ids records) : Line current (current :: ids) (record :: records)

end Walk

variable {load load' : ι → Except ε α} {parent : α → Option ι} {again : ι → ε}
  {current : ι} {ids seen : List ι} {records : List α}

section

variable (line : Line load parent current ids records)
include line

theorem Line.starts : current ∈ ids := by
  cases line <;> exact .head _

theorem Line.loads :
    ∀ i ∈ ids, ∃ record ∈ records, load i = .ok record := by
  induction line with
  | root loaded _ => simp [loaded]
  | @child current next record ids records loaded link rest ih =>
    intro i mem
    rcases List.mem_cons.mp mem with rfl | later
    · exact ⟨record, .head _, loaded⟩
    · obtain ⟨other, inside, found⟩ := ih i later
      exact ⟨other, List.mem_cons_of_mem _ inside, found⟩

theorem Line.loaded :
    ∀ record ∈ records, ∃ i ∈ ids, load i = .ok record := by
  induction line with
  | @root current record loaded _ =>
    intro other mem
    rw [List.mem_singleton] at mem
    exact ⟨current, .head _, mem ▸ loaded⟩
  | @child current next record ids records loaded link rest ih =>
    intro other mem
    rcases List.mem_cons.mp mem with rfl | later
    · exact ⟨current, .head _, loaded⟩
    · obtain ⟨i, inside, found⟩ := ih other later
      exact ⟨i, List.mem_cons_of_mem _ inside, found⟩

/-- A line depends only on the records along it. -/
theorem Line.congr (load' : ι → Except ε α)
    (same : ∀ i ∈ ids, load' i = load i) : Line load' parent current ids records := by
  induction line with
  | root loaded orphan => exact .root ((same _ (.head _)).trans loaded) orphan
  | child loaded link rest ih =>
    exact .child ((same _ (.head _)).trans loaded) link
      (ih fun i mem => same i (.tail _ mem))

end

/-- The identifiers past the first are the parents named on the way. -/
theorem Line.named {record : α} (line : Line load parent current ids (record :: records)) :
    ∃ later, ids = current :: later ∧ load current = .ok record ∧
      ((later = [] ∧ records = [] ∧ parent record = none) ∨
        ∃ next, parent record = some next ∧ Line load parent next later records) := by
  cases line with
  | root loaded orphan => exact ⟨[], rfl, loaded, .inl ⟨rfl, rfl, orphan⟩⟩
  | child loaded link rest => exact ⟨_, rfl, loaded, .inr ⟨_, link, rest⟩⟩

attribute [local simp] walk

theorem walk_eq_ok [DecidableEq ι] {fuel : Nat} :
    walk load parent again fuel seen current = some (.ok records) ↔
      ∃ ids, Line load parent current ids records ∧ ids.Nodup ∧ (∀ i ∈ ids, i ∉ seen) ∧
        ids.length ≤ fuel := by
  induction fuel generalizing seen current records with
  | zero =>
    refine ⟨fun done => (by cases done), ?_⟩
    rintro ⟨ids, line, _, _, short⟩
    exact absurd (List.length_pos_of_mem line.starts) (by omega)
  | succ fuel ih =>
    rw [walk]
    constructor
    · intro done
      split at done
      · cases done
      next fresh =>
      split at done
      · cases done
      next record loaded =>
      split at done
      next orphan =>
        cases done
        exact ⟨[current], .root loaded orphan, by simp, by simpa using fresh, by simp⟩
      next next link =>
        obtain ⟨result, deeper, whole⟩ := Option.map_eq_some_iff.mp done
        cases result with
        | error e => cases whole
        | ok rest =>
          cases whole
          obtain ⟨ids, line, nodup, apart, short⟩ := ih.mp deeper
          refine ⟨current :: ids, .child loaded link line, ?_, ?_, by simpa using short⟩
          · exact List.nodup_cons.mpr ⟨fun mem => apart _ mem (.head _), nodup⟩
          · intro i mem inside
            rcases List.mem_cons.mp mem with rfl | later
            · exact fresh inside
            · exact apart i later (.tail _ inside)
    · rintro ⟨ids, line, nodup, apart, short⟩
      rw [if_neg (apart current line.starts)]
      cases line with
      | root loaded orphan => simp only [loaded, orphan]
      | child loaded link rest =>
        have ⟨outside, nodup⟩ := List.nodup_cons.mp nodup
        have deeper := ih.mpr ⟨_, rest, nodup, fun i mem inside => by
          rcases List.mem_cons.mp inside with rfl | old
          · exact outside mem
          · exact apart i (.tail _ mem) old, by simpa using short⟩
        simp only [loaded, link, deeper, Option.map_some, Except.map]

/-- A walk without a result has read as many records as it had fuel. -/
theorem walk_eq_none [DecidableEq ι] {fuel : Nat}
    (ranOut : walk load parent again fuel seen current = none) :
    ∃ ids : List ι, ids.length = fuel ∧ ids.Nodup ∧
      ∀ i ∈ ids, i ∉ seen ∧ ∃ record, load i = .ok record := by
  induction fuel generalizing seen current with
  | zero => exact ⟨[], rfl, .nil, by simp⟩
  | succ fuel ih =>
    rw [walk] at ranOut
    split at ranOut
    · cases ranOut
    next fresh =>
    split at ranOut
    · cases ranOut
    next record loaded =>
    split at ranOut
    · cases ranOut
    next next link =>
    obtain ⟨ids, length, nodup, each⟩ := ih (Option.map_eq_none_iff.mp ranOut)
    refine ⟨current :: ids, by simp [length], ?_, ?_⟩
    · exact List.nodup_cons.mpr ⟨fun mem => (each _ mem).1 (.head _), nodup⟩
    · intro i mem
      rcases List.mem_cons.mp mem with rfl | later
      · exact ⟨fresh, record, loaded⟩
      · exact ⟨fun inside => (each i later).1 (.tail _ inside), (each i later).2⟩

/-- The records that can be read bound every line. -/
theorem Line.length_le {κ : Type} {keys : List κ} {key : ι → κ} (injective : Function.Injective key)
    (covered : ∀ i record, load i = .ok record → key i ∈ keys)
    (line : Line load parent current ids records) (nodup : ids.Nodup) :
    ids.length ≤ keys.length := by
  have distinct : (ids.map key).Nodup := nodup.map injective
  have inside : ids.map key ⊆ keys := by
    intro k mem
    obtain ⟨i, listed, rfl⟩ := List.mem_map.mp mem
    obtain ⟨record, _, loaded⟩ := line.loads i listed
    exact covered i record loaded
  simpa using distinct.length_le_of_subset inside

theorem walk_returns [DecidableEq ι] {κ : Type} {keys : List κ} {key : ι → κ}
    (injective : Function.Injective key)
    (covered : ∀ i record, load i = .ok record → key i ∈ keys) {fuel : Nat}
    (enough : keys.length < fuel) (seen : List ι) (current : ι) :
    walk load parent again fuel seen current ≠ none := by
  intro ranOut
  obtain ⟨ids, length, nodup, each⟩ := walk_eq_none ranOut
  have distinct : (ids.map key).Nodup := nodup.map injective
  have inside : ids.map key ⊆ keys := by
    intro k mem
    obtain ⟨i, listed, rfl⟩ := List.mem_map.mp mem
    obtain ⟨_, record, loaded⟩ := each i listed
    exact covered i record loaded
  have bound := distinct.length_le_of_subset inside
  rw [List.length_map] at bound
  omega

end Lineage
