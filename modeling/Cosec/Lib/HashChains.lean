import Mathlib.Data.List.Find
import Mathlib.Data.List.Nodup
import Mathlib.Logic.Function.Basic

/-!
# Hash tables with chains

A table has a chain of entries for every bucket.  It is keyed when each entry
is in the bucket of its key and no key comes twice; it is then a finite map
from keys to entries, whatever the order of the chains.  Appending an entry
to its chain and erasing one from it are the update and the removal of that
map.
-/

namespace Cosec.Lib.HashChains

open Function List

universe u v w

variable {Bucket : Type u} {Entry : Type v} {Key : Type w} {key : Entry → Key}
  {bucketOf : Key → Bucket} {chains : Bucket → List Entry}

/-- Every entry is in the bucket of its key, and no key comes twice. -/
structure Keyed
    (key : Entry → Key) (bucketOf : Key → Bucket) (chains : Bucket → List Entry) : Prop where
  placed : ∀ bucket, ∀ entry ∈ chains bucket, bucketOf (key entry) = bucket
  distinct : ∀ bucket, ((chains bucket).map key).Nodup

variable [DecidableEq Key]

/-- The entry of a key. -/
def lookup (key : Entry → Key) (bucketOf : Key → Bucket)
    (chains : Bucket → List Entry) (wanted : Key) : Option Entry :=
  (chains (bucketOf wanted)).find? fun entry => key entry = wanted

variable {entry : Entry}

theorem lookup_none_iff {wanted : Key} :
    lookup key bucketOf chains wanted = none ↔
      ∀ entry ∈ chains (bucketOf wanted), key entry ≠ wanted := by
  simp [lookup]

/-- In a keyed table every entry is the entry of its key. -/
theorem Keyed.lookup_key
    (keyed : Keyed key bucketOf chains) {bucket : Bucket} (member : entry ∈ chains bucket) :
    lookup key bucketOf chains (key entry) = some entry := by
  have here := keyed.placed bucket entry member
  unfold lookup
  rw [here]
  cases found : (chains bucket).find? fun other => key other = key entry with
  | none =>
    have absent := find?_eq_none.mp found entry member
    exact absurd (decide_eq_true rfl) absent
  | some other =>
    have sameKey : key other = key entry := by simpa using find?_some found
    rw [inj_on_of_nodup_map (keyed.distinct bucket) (mem_of_find?_eq_some found) member sameKey]

/-! ## Updates -/

variable [DecidableEq Bucket]

theorem Keyed.append
    (keyed : Keyed key bucketOf chains) (absent : lookup key bucketOf chains (key entry) = none) :
    Keyed key bucketOf
      (update chains (bucketOf (key entry)) (chains (bucketOf (key entry)) ++ [entry])) where
  placed := by
    intro bucket other member
    by_cases here : bucket = bucketOf (key entry)
    · subst here
      rw [update_self, mem_append, mem_singleton] at member
      rcases member with older | rfl
      · exact keyed.placed _ other older
      · rfl
    · rw [update_of_ne here] at member
      exact keyed.placed bucket other member
  distinct := by
    intro bucket
    by_cases here : bucket = bucketOf (key entry)
    · subst here
      rw [update_self, map_append]
      refine (keyed.distinct _).append (nodup_singleton _) ?_
      rw [map_singleton, disjoint_singleton, mem_map]
      rintro ⟨other, older, sameKey⟩
      exact lookup_none_iff.mp absent other older sameKey
    · rw [update_of_ne here]
      exact keyed.distinct bucket

theorem lookup_append (absent : lookup key bucketOf chains (key entry) = none) :
    lookup key bucketOf
        (update chains (bucketOf (key entry)) (chains (bucketOf (key entry)) ++ [entry])) =
      update (lookup key bucketOf chains) (key entry) (some entry) := by
  funext wanted
  by_cases sameKey : wanted = key entry
  · subst sameKey
    unfold lookup at absent ⊢
    rw [update_self, find?_append, absent]
    simp
  · rw [update_of_ne sameKey]
    unfold lookup
    by_cases here : bucketOf wanted = bucketOf (key entry)
    · rw [here, update_self, find?_append]
      have other : ¬ key entry = wanted := fun equal => sameKey equal.symm
      simp [other]
    · rw [update_of_ne here]

theorem Keyed.erase (keyed : Keyed key bucketOf chains) (gone : Key) :
    Keyed key bucketOf (update chains (bucketOf gone) ((chains (bucketOf gone)).eraseP fun entry =>
          key entry = gone)) where
  placed := by
    intro bucket entry member
    by_cases here : bucket = bucketOf gone
    · subst here
      rw [update_self] at member
      exact keyed.placed _ entry (mem_of_mem_eraseP member)
    · rw [update_of_ne here] at member
      exact keyed.placed bucket entry member
  distinct := by
    intro bucket
    by_cases here : bucket = bucketOf gone
    · subst here
      rw [update_self]
      exact (keyed.distinct _).sublist (eraseP_sublist.map key)
    · rw [update_of_ne here]
      exact keyed.distinct bucket

/-- Erasing an element does not hide others that are searched for. -/
theorem find?_eraseP {test wanted : Entry → Bool} {list : List Entry}
    (apart : ∀ entry, test entry = true → wanted entry = false) :
    (list.eraseP test).find? wanted = list.find? wanted := by
  induction list with
  | nil => rfl
  | cons entry rest ih =>
    cases matching : test entry with
    | true =>
      rw [eraseP_cons_of_pos matching, find?_cons_of_neg (by simp [apart entry matching])]
    | false =>
      rw [eraseP_cons_of_neg (by simp [matching]), find?_cons, find?_cons, ih]

theorem Keyed.lookup_erase (keyed : Keyed key bucketOf chains) (gone : Key) :
    lookup key bucketOf (update chains (bucketOf gone) ((chains (bucketOf gone)).eraseP fun entry =>
            key entry = gone)) =
      update (lookup key bucketOf chains) gone none := by
  funext wanted
  by_cases sameKey : wanted = gone
  · subst sameKey
    rw [update_self, lookup_none_iff, update_self]
    intro entry member sameKey
    obtain ⟨first, front, rest, earlier, matching, split, erased⟩ :=
      exists_of_eraseP (p := fun entry => decide (key entry = wanted))
        (mem_of_mem_eraseP member) (by simpa using sameKey)
    have distinct := keyed.distinct (bucketOf wanted)
    rw [split, map_append, map_cons] at distinct
    rw [erased, mem_append] at member
    rcases member with before | behind
    · exact absurd (decide_eq_true sameKey) (earlier entry before)
    · have firstKey : key first = wanted := by simpa using matching
      have apart := (nodup_append.mp distinct).2.1
      rw [nodup_cons, firstKey, ← sameKey] at apart
      exact apart.1 (mem_map_of_mem behind)
  · rw [update_of_ne sameKey]
    unfold lookup
    by_cases here : bucketOf wanted = bucketOf gone
    · rw [here, update_self]
      apply find?_eraseP
      intro entry matching
      have goneKey : key entry = gone := by simpa using matching
      rw [goneKey]
      exact decide_eq_false fun equal => sameKey equal.symm
    · rw [update_of_ne here]

/-- The entries in the order of some buckets. -/
def entries (buckets : List Bucket) (chains : Bucket → List Entry) : List Entry :=
  buckets.flatMap chains

omit [DecidableEq Key] [DecidableEq Bucket] in
/-- No key comes twice among the entries of different buckets. -/
theorem Keyed.nodup_keys
    (keyed : Keyed key bucketOf chains) {buckets : List Bucket} (distinct : buckets.Nodup) :
    ((entries buckets chains).map key).Nodup := by
  induction buckets with
  | nil => exact nodup_nil
  | cons bucket rest ih =>
    obtain ⟨apart, distinctRest⟩ := nodup_cons.mp distinct
    rw [entries, flatMap_cons, map_append]
    refine (keyed.distinct bucket).append (ih distinctRest) ?_
    intro shared inFirst inRest
    obtain ⟨entry, member, rfl⟩ := mem_map.mp inFirst
    obtain ⟨other, otherMember, sameKey⟩ := mem_map.mp inRest
    obtain ⟨later, laterMember, inside⟩ := mem_flatMap.mp otherMember
    have here := keyed.placed bucket entry member
    rw [← sameKey, keyed.placed later other inside] at here
    exact apart (here ▸ laterMember)

theorem length_entries_update (buckets : List Bucket) (distinct : buckets.Nodup)
    {bucket : Bucket} (member : bucket ∈ buckets) (chain : List Entry) :
    (entries buckets (update chains bucket chain)).length + (chains bucket).length =
      (entries buckets chains).length + chain.length := by
  induction buckets with
  | nil => cases member
  | cons first rest ih =>
    obtain ⟨apart, distinctRest⟩ := nodup_cons.mp distinct
    simp only [entries, flatMap_cons, length_append]
    rcases mem_cons.mp member with rfl | later
    · have others : rest.flatMap (update chains bucket chain) = rest.flatMap chains := by
        refine flatMap_congr fun other inside => ?_
        exact update_of_ne (by rintro rfl; exact apart inside) ..
      rw [update_self, others]
      omega
    · have moved := ih distinctRest later
      simp only [entries] at moved
      rw [update_of_ne (by rintro rfl; exact apart later)]
      omega

end Cosec.Lib.HashChains
