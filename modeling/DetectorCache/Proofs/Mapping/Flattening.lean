import DetectorCache.Proofs.Pass.Eviction
/-!
Flattening keeps the conditions of an expression and adds none. Unless two of them want different
values of one tag, the flat form is the tag-set of exactly these conditions; otherwise two that do
are named. So lookups, which match the conditions one by one, and evictions, which match the flat
form, never differ about the tag-sets that a mapping is about.
-/
set_option autoImplicit false

namespace DetectorCache

open Octets (ascii)

namespace Expression

variable {expression : Expression} {required flat : Tags} {conflict : Conflict}

theorem find?_of_flattenOnto (h : flattenOnto required expression = .ok flat)
    (key value : Octets) :
    flat.find? key = some value ↔
      required.find? key = some value ∨ ⟨key, value⟩ ∈ expression := by
  induction expression generalizing required with
  | nil =>
    cases h
    simp
  | cons o os ih =>
    obtain ⟨k, v⟩ := o
    rw [flattenOnto] at h
    cases hfind : required.find? k with
    | none =>
      simp only [hfind] at h
      rw [ih h, SortedMap.find?_insert, List.mem_cons]
      by_cases hkey : key = k
      · simp [hkey, hfind, eq_comm]
      · simp [hkey]
    | some found =>
      simp only [hfind] at h
      split at h
      · next hvalue =>
        rw [ih h, List.mem_cons]
        by_cases hkey : key = k
        · simp [hkey, hfind, hvalue, eq_comm]
        · simp [hkey]
      · cases h

theorem conflict_of_flattenOnto (h : flattenOnto required expression = .error conflict) :
    (required.find? conflict.key = some conflict.first ∨
        ⟨conflict.key, conflict.first⟩ ∈ expression) ∧
      ⟨conflict.key, conflict.second⟩ ∈ expression ∧ conflict.first ≠ conflict.second := by
  induction expression generalizing required with
  | nil => cases h
  | cons o os ih =>
    obtain ⟨k, v⟩ := o
    rw [flattenOnto] at h
    cases hfind : required.find? k with
    | none =>
      -- for the conditions after it the one that is added counts as required before
      simp only [hfind] at h
      obtain ⟨hfirst, hsecond, hdiffer⟩ := ih h
      rw [SortedMap.find?_insert] at hfirst
      refine ⟨?_, List.mem_cons_of_mem _ hsecond, hdiffer⟩
      by_cases hkey : conflict.key = k
      · simp only [hkey, if_true, Option.some.injEq] at hfirst ⊢
        rcases hfirst with rfl | hlater
        · exact Or.inr List.mem_cons_self
        · exact Or.inr (List.mem_cons_of_mem _ hlater)
      · rw [if_neg hkey] at hfirst
        exact hfirst.imp_right (List.mem_cons_of_mem _)
    | some found =>
      simp only [hfind] at h
      split at h
      · obtain ⟨hfirst, hsecond, hdiffer⟩ := ih h
        exact ⟨hfirst.imp_right (List.mem_cons_of_mem _), List.mem_cons_of_mem _ hsecond,
          hdiffer⟩
      · next hdiffer =>
        cases h
        exact ⟨Or.inl hfind, List.mem_cons_self, hdiffer⟩

theorem holds_iff_of_flatten (h : expression.flatten = .ok required) (tags : Tags) :
    expression.holds tags ↔ tags.covers required := by
  rw [holds_iff_covers_flatten, h]
  simp

theorem not_holds_of_flatten (h : expression.flatten = .error conflict) (tags : Tags) :
    ¬ expression.holds tags := by
  rw [holds_iff_covers_flatten, h]
  rintro ⟨required, hflat, -⟩
  cases hflat

theorem exists_flatten_iff :
    (∃ required, expression.flatten = .ok required) ↔ expression.Satisfiable := by
  rw [satisfiable_iff]
  cases expression.flatten <;> simp [Except.toOption]

end Expression

namespace Eviction

variable {mappings : List Mapping} {cache : Cache}

theorem resolve_ne_nil_iff (mappings : List Mapping) (tags : Tags) :
    (({ mappings } : Directory).resolve tags).1 ≠ .ok [] ↔
      ∃ m ∈ mappings, m.expression.holds tags := by
  simp [Directory.resolve, List.filter_eq_nil_iff]

/-- What an eviction for some mappings affects is what a directory of them answers. -/
theorem affects_iff_resolved {pending : Pending}
    (h : (start mappings cache).1 = .scanned pending) (tags : Tags) (value : Octets) :
    pending.affects (CacheKey.encode tags, value) ↔
      (({ mappings } : Directory).resolve tags).1 ≠ .ok [] := by
  have hrequired : pending.required = requiredTags mappings := by
    by_cases hnone : requiredTags mappings = []
    · obtain ⟨report, hended, -⟩ := start_of_requiredTags_eq_nil hnone cache
      rw [hended] at h
      cases h
    · obtain ⟨stopped, hscanned, hrequired, -⟩ := start_of_requiredTags_ne_nil hnone cache
      rw [hscanned] at h
      cases h
      exact hrequired
  rw [resolve_ne_nil_iff, ← exists_covers_requiredTags, Pending.affects, CacheKey.decode_encode,
    hrequired]
  simp

theorem resolved_of_ended {report : Report} (h : (start mappings cache).1 = .ended report)
    (tags : Tags) : (({ mappings } : Directory).resolve tags).1 = .ok [] := by
  have hnone : requiredTags mappings = [] := by
    refine Decidable.byContradiction fun hsome => ?_
    obtain ⟨pending, hscanned, -⟩ := start_of_requiredTags_ne_nil hsome cache
    rw [hscanned] at h
    cases h
  refine Classical.byContradiction fun hanswers => ?_
  obtain ⟨required, hmem, -⟩ :=
    exists_covers_requiredTags.mpr ((resolve_ne_nil_iff mappings tags).mp hanswers)
  rw [hnone] at hmem
  cases hmem

end Eviction

/-- Flattening is exact. An expression can be flattened exactly if some tag-set meets it; the flat
form is the tag-set of its conditions, and a tag-set covers it exactly if it meets the expression.
If there is none, two conditions want the two named values of one tag, and no tag-set meets both. So
an eviction for some mappings affects the entries of exactly those tag-sets for which a directory of
these mappings has an answer. -/
theorem Expression.flatten_exact (expression : Expression) :
    ((∃ required, expression.flatten = .ok required) ↔
      ∃ tags : Tags, expression.holds tags = true) ∧
    (∀ required, expression.flatten = .ok required →
      (∀ key value, required.find? key = some value ↔ ⟨key, value⟩ ∈ expression) ∧
        ∀ tags : Tags, expression.holds tags = true ↔ tags.covers required = true) ∧
    (∀ conflict, expression.flatten = .error conflict →
      (⟨conflict.key, conflict.first⟩ ∈ expression ∧
          ⟨conflict.key, conflict.second⟩ ∈ expression ∧ conflict.first ≠ conflict.second) ∧
        ∀ tags : Tags, expression.holds tags = false) ∧
    ∀ (mappings : List Mapping) (cache : Cache) (tags : Tags),
      let answer := (({ mappings } : Directory).resolve tags).1
      (∀ report, (Eviction.start mappings cache).1 = .ended report → answer = .ok []) ∧
        ∀ pending, (Eviction.start mappings cache).1 = .scanned pending → ∀ value,
          (pending.affects (CacheKey.encode tags, value) = true ↔ answer ≠ .ok []) := by
  refine ⟨exists_flatten_iff, ?_, ?_, ?_⟩
  · intro required hflatten
    refine ⟨fun key value => ?_, holds_iff_of_flatten hflatten⟩
    rw [find?_of_flattenOnto hflatten, SortedMap.find?_empty]
    simp
  · intro conflict hflatten
    obtain ⟨hfirst, hsecond, hdiffer⟩ := conflict_of_flattenOnto hflatten
    rw [SortedMap.find?_empty] at hfirst
    refine ⟨⟨hfirst.resolve_left nofun, hsecond, hdiffer⟩, fun tags => ?_⟩
    exact Bool.eq_false_iff.mpr (not_holds_of_flatten hflatten tags)
  · intro mappings cache tags answer
    exact ⟨fun report hended => Eviction.resolved_of_ended hended tags,
      fun pending hscanned value => Eviction.affects_iff_resolved hscanned tags value⟩

theorem Expression.flatten_exact_of_repeated_tags :
    let region : Operand := ⟨ascii "region", ascii "us"⟩
    let stage : Operand := ⟨ascii "env", ascii "prod"⟩
    let elsewhere : Operand := ⟨ascii "region", ascii "eu"⟩
    (∃ required, flatten [region, stage, region] = .ok required ∧ required.entries.length = 2 ∧
      ∀ tags : Tags, holds [region, stage, region] tags = true ↔ tags.covers required = true) ∧
    flatten [region, stage, elsewhere] = .error ⟨ascii "region", ascii "us", ascii "eu"⟩ ∧
    (∀ tags : Tags, holds [region, stage, elsewhere] tags = false) ∧
    ∀ (d : Detector) (cache : Cache) (tags : Tags),
      let mapping : Mapping := ⟨d, [region, stage, elsewhere]⟩
      (∃ report, (Eviction.start [mapping] cache).1 = .ended report) ∧
        (({ mappings := [mapping] } : Directory).resolve tags).1 = .ok [] := by
  intro region stage elsewhere
  have hrefused : flatten [region, stage, elsewhere] =
      .error ⟨ascii "region", ascii "us", ascii "eu"⟩ := rfl
  refine ⟨⟨_, rfl, by decide, ?_⟩, hrefused, ?_, fun d cache tags => ⟨⟨_, rfl⟩, ?_⟩⟩
  · exact ((flatten_exact [region, stage, region]).2.1 _ rfl).2
  · exact ((flatten_exact [region, stage, elsewhere]).2.2.1 _ hrefused).2
  · exact ((flatten_exact []).2.2.2 [⟨d, [region, stage, elsewhere]⟩] cache tags).1 _ rfl

end DetectorCache
