import DerivedTelemetry.Function.Registry
import DerivedTelemetry.Proofs.Text.Bytes
import Mathlib.Data.List.Dedup
import Mathlib.Data.List.Perm.Basic

/-!
# The registry and the sequence of registrations

Functions are kept under keys but listed by their names as they were written, and a name may
be registered again in another case and for another category.  Instead of a registry one
could keep the plain sequence of registrations and look for the last one of a key.  This
module proves that a registry answers as that sequence does: what is found under a key is
its last registration, what a registration replaces is the one before it, and the listings
hold what is left, each entry once and in the order of the bytes of the names.  The order of
registration cannot be told from a listing unless names share a key.
-/

namespace DerivedTelemetry

open scoped List

/-- What an entry is kept under. -/
def Entry.key (entry : Entry) : List Char := nameKey entry.name

namespace Registry

variable {registry : Registry} {entries others calls : List Entry} {infos : List FunctionInfo}

/-- No two entries are kept under one key. -/
def Distinct (entries : List Entry) : Prop := entries.Pairwise fun a b => a.key ≠ b.key

/-- The last of a sequence of registrations that has the key of a name. -/
def lastOf (calls : List Entry) (name : String) : Option Entry :=
  calls.reverse.find? fun call => call.key == nameKey name

/-- A listing of entries: each of them once, in the order of the bytes of their names. -/
structure Lists (entries : List Entry) (infos : List FunctionInfo) : Prop where
  each_once : infos.Perm (entries.map (·.info))
  ascending : infos.Pairwise fun a b => Text.bytes a.name.toList < Text.bytes b.name.toList

/-! ### One registration -/

theorem mem_iff_lookup? (h : Distinct registry.entries) {entry : Entry} :
    entry ∈ registry.entries ↔ registry.lookup? entry.name = some entry := by
  refine ⟨fun hmem => ?_, List.mem_of_find?_eq_some⟩
  obtain ⟨entries⟩ := registry
  unfold lookup?
  induction entries with
  | nil => exact absurd hmem List.not_mem_nil
  | cons first rest ih =>
    obtain ⟨hfirst, hrest⟩ := List.pairwise_cons.mp h
    rcases List.mem_cons.mp hmem with rfl | hmem
    · simp
    · have hkey : nameKey first.name ≠ nameKey entry.name := hfirst entry hmem
      simp [hkey, ih hrest hmem]

theorem put_of_key_eq {first entry : Entry} (h : first.key = entry.key) (rest : List Entry) :
    put entry (first :: rest) = entry :: rest := by
  have hkey : nameKey first.name = nameKey entry.name := h
  simp [put, hkey]

theorem put_of_key_ne {first entry : Entry} (h : first.key ≠ entry.key) (rest : List Entry) :
    put entry (first :: rest) = first :: put entry rest := by
  have hkey : nameKey first.name ≠ nameKey entry.name := h
  simp [put, hkey]

/-- Nothing is lost: what was found under the key before gives way to the new entry. -/
theorem put_perm (entry : Entry) (entries : List Entry) :
    ((entries.find? fun other => other.key == entry.key).toList ++ put entry entries).Perm
      (entry :: entries) := by
  induction entries with
  | nil => rfl
  | cons first rest ih =>
    by_cases hkey : first.key = entry.key
    · simp [put_of_key_eq hkey, hkey, List.Perm.swap]
    · rw [List.find?_cons_of_neg (by simpa using hkey), put_of_key_ne hkey]
      exact List.perm_middle.trans ((ih.cons first).trans (List.Perm.swap entry first rest))

theorem distinct_put (h : Distinct entries) (entry : Entry) : Distinct (put entry entries) := by
  induction entries with
  | nil => exact List.pairwise_singleton _ entry
  | cons first rest ih =>
    obtain ⟨hfirst, hrest⟩ := List.pairwise_cons.mp h
    by_cases hkey : first.key = entry.key
    · rw [put_of_key_eq hkey]
      exact List.pairwise_cons.mpr ⟨hkey ▸ hfirst, hrest⟩
    · rw [put_of_key_ne hkey]
      refine List.pairwise_cons.mpr ⟨fun other hother => ?_, ih hrest⟩
      have hmem : other ∈ entry :: rest :=
        (put_perm entry rest).subset (List.mem_append_right _ hother)
      rcases List.mem_cons.mp hmem with rfl | hmem
      · exact hkey
      · exact hfirst other hmem

/-! ### A run of registrations -/

theorem replaced_cons (registry : Registry) (call : Entry) (calls : List Entry) :
    (registry.registerAll (call :: calls)).1 =
      registry.lookup? call.name :: ((registry.register call).registerAll calls).1 := rfl

theorem registerAll_cons (registry : Registry) (call : Entry) (calls : List Entry) :
    (registry.registerAll (call :: calls)).2 =
      ((registry.register call).registerAll calls).2 := rfl

theorem lastOf_cons (call : Entry) (calls : List Entry) (name : String) :
    lastOf (call :: calls) name =
      (lastOf calls name).or (if call.key = nameKey name then some call else none) := by
  by_cases hkey : call.key = nameKey name <;> simp [lastOf, List.find?_append, hkey]

theorem key_of_lastOf {name : String} {entry : Entry} (h : lastOf calls name = some entry) :
    entry.key = nameKey name := by
  simpa using List.find?_some h

/-- What is found after a run is its last registration, or what was there before the run. -/
theorem lookup?_registerAll (registry : Registry) (calls : List Entry) (name : String) :
    (registry.registerAll calls).2.lookup? name =
      (lastOf calls name).or (registry.lookup? name) := by
  induction calls generalizing registry with
  | nil => rfl
  | cons call calls ih =>
    rw [registerAll_cons, ih, lookup?_register, lastOf_cons, Option.or_assoc]
    by_cases hkey : nameKey call.name = nameKey name <;> simp [Entry.key, hkey]

theorem lookup?_empty_registerAll (calls : List Entry) (name : String) :
    (empty.registerAll calls).2.lookup? name = lastOf calls name := by
  rw [lookup?_registerAll]
  exact Option.or_none

/-- Each registration answers what was found under its key until then. -/
theorem replaced_append (registry : Registry) (earlier later : List Entry) (call : Entry) :
    (registry.registerAll (earlier ++ call :: later)).1[earlier.length]? =
      some ((registry.registerAll earlier).2.lookup? call.name) := by
  induction earlier generalizing registry with
  | nil => rfl
  | cons first earlier ih =>
    rw [List.cons_append, replaced_cons, List.length_cons, List.getElem?_cons_succ, ih]
    rfl

theorem length_replaced (registry : Registry) (calls : List Entry) :
    (registry.registerAll calls).1.length = calls.length := by
  induction calls generalizing registry with
  | nil => rfl
  | cons call calls ih => rw [replaced_cons, List.length_cons, List.length_cons, ih]

theorem distinct_registerAll (h : Distinct registry.entries) (calls : List Entry) :
    Distinct (registry.registerAll calls).2.entries := by
  induction calls generalizing registry with
  | nil => exact h
  | cons call calls ih => exact ih (distinct_put h call)

theorem distinct_empty_registerAll (calls : List Entry) :
    Distinct (empty.registerAll calls).2.entries :=
  distinct_registerAll List.Pairwise.nil calls

/-- Every registration has been replaced by a later one or is still there. -/
theorem registerAll_perm (registry : Registry) (calls : List Entry) :
    ((registry.registerAll calls).1.reduceOption ++ (registry.registerAll calls).2.entries).Perm
      (calls ++ registry.entries) := by
  induction calls generalizing registry with
  | nil => rfl
  | cons call calls ih =>
    have hreplaced : (registry.registerAll (call :: calls)).1.reduceOption =
        (registry.lookup? call.name).toList ++
          ((registry.register call).registerAll calls).1.reduceOption := by
      rw [replaced_cons]
      cases registry.lookup? call.name <;> rfl
    rw [hreplaced, registerAll_cons, List.append_assoc]
    calc
      _ ~ (registry.lookup? call.name).toList ++ (calls ++ put call registry.entries) :=
        (ih (registry.register call)).append_left _
      _ ~ calls ++ ((registry.lookup? call.name).toList ++ put call registry.entries) :=
        List.perm_append_comm_assoc _ _ _
      _ ~ calls ++ call :: registry.entries := (put_perm call registry.entries).append_left _
      _ ~ call :: calls ++ registry.entries := List.perm_middle

theorem empty_registerAll_perm (calls : List Entry) :
    ((empty.registerAll calls).1.reduceOption ++ (empty.registerAll calls).2.entries).Perm
      calls := by
  have hperm := registerAll_perm empty calls
  rwa [show empty.entries = [] from rfl, List.append_nil] at hperm

/-- Only what was registered is there. -/
theorem mem_of_mem_registerAll {entry : Entry}
    (h : entry ∈ (empty.registerAll calls).2.entries) : entry ∈ calls :=
  (empty_registerAll_perm calls).subset (List.mem_append_right _ h)

/-- The keys of a registry are those under which something was registered. -/
theorem keys_perm (calls : List Entry) :
    ((empty.registerAll calls).2.entries.map Entry.key).Perm (calls.map Entry.key).dedup := by
  have hnodup : ((empty.registerAll calls).2.entries.map Entry.key).Nodup :=
    List.pairwise_map.mpr (distinct_empty_registerAll calls)
  refine (List.perm_ext_iff_of_nodup hnodup (List.nodup_dedup _)).mpr fun key => ?_
  rw [List.mem_dedup, List.mem_map, List.mem_map]
  constructor
  · rintro ⟨entry, hentry, hkey⟩
    exact ⟨entry, mem_of_mem_registerAll hentry, hkey⟩
  · rintro ⟨call, hcall, hkey⟩
    have hfound : (lastOf calls call.name).isSome := by
      rw [lastOf, List.find?_isSome]
      exact ⟨call, List.mem_reverse.mpr hcall, by simp [Entry.key]⟩
    obtain ⟨entry, hentry⟩ := Option.isSome_iff_exists.mp hfound
    have hsame : entry.key = call.key := key_of_lastOf hentry
    rw [← lookup?_empty_registerAll] at hentry
    exact ⟨entry, List.mem_of_find?_eq_some hentry, hsame.trans hkey⟩

theorem size_registerAll (calls : List Entry) :
    (empty.registerAll calls).2.size = (calls.map Entry.key).dedup.length := by
  rw [← (keys_perm calls).length_eq, List.length_map, size]

/-- Where no key is registered twice, all registrations are kept. -/
theorem registerAll_perm_of_distinct (h : Distinct calls) :
    (empty.registerAll calls).2.entries.Perm calls := by
  have hperm := empty_registerAll_perm calls
  have hnodup : (calls.map Entry.key).Nodup := List.pairwise_map.mpr h
  have hsize : (empty.registerAll calls).2.entries.length = calls.length := by
    have hcount := size_registerAll calls
    rwa [hnodup.dedup, List.length_map] at hcount
  have hnone : (empty.registerAll calls).1.reduceOption = [] := by
    have hlength := hperm.length_eq
    rw [List.length_append, hsize] at hlength
    exact List.eq_nil_of_length_eq_zero (by omega)
  rwa [hnone, List.nil_append] at hperm

/-! ### Listings -/

theorem name_ne_of_key_ne {a b : Entry} (h : a.key ≠ b.key) : a.name ≠ b.name :=
  fun hname => h (congrArg nameKey hname)

theorem lists_sortedByName (h : Distinct entries) :
    Lists entries (sortedByName (entries.map (·.info))) := by
  have hperm : (sortedByName (entries.map (·.info))).Perm (entries.map (·.info)) :=
    List.mergeSort_perm _ _
  have hsorted : (sortedByName (entries.map (·.info))).Pairwise
      fun a b => decide (a.name ≤ b.name) = true := by
    refine List.pairwise_mergeSort (fun a b c hab hbc => ?_) (fun a b => ?_) _
    · exact decide_eq_true (String.le_trans (of_decide_eq_true hab) (of_decide_eq_true hbc))
    · simpa using String.le_total a.name b.name
  have hdiffer : (sortedByName (entries.map (·.info))).Pairwise fun a b => a.name ≠ b.name := by
    rw [hperm.pairwise_iff Ne.symm, List.pairwise_map]
    exact h.imp name_ne_of_key_ne
  refine ⟨hperm, (hsorted.and hdiffer).imp fun {a b} hab => ?_⟩
  have hless : a.name < b.name :=
    String.not_le.mp fun hge => hab.2 (String.le_antisymm (of_decide_eq_true hab.1) hge)
  exact Text.bytes_lt (String.lt_iff.mp hless)

/-- A listing does not depend on the order of what it lists. -/
theorem Lists.unique {infos' : List FunctionInfo} (h : Lists entries infos)
    (hother : Lists others infos') (hperm : entries.Perm others) : infos = infos' := by
  have hsame : infos.Perm infos' :=
    h.each_once.trans ((hperm.map _).trans hother.each_once.symm)
  exact hsame.eq_of_pairwise (fun a b _ _ hab hba => absurd hba (List.lt_asymm hab)) h.ascending
    hother.ascending

theorem lists_functions (h : Distinct registry.entries) :
    Lists registry.entries registry.functions := lists_sortedByName h

theorem lists_ofCategory (h : Distinct registry.entries) (category : Category) :
    Lists (registry.entries.filter (·.category = category)) (registry.ofCategory category) := by
  have hcategory : registry.ofCategory category =
      sortedByName ((registry.entries.filter (·.category = category)).map (·.info)) := by
    rw [ofCategory, List.filter_map]
    rfl
  rw [hcategory]
  exact lists_sortedByName (h.filter _)

theorem of_mem_byCategory {group : Category × List FunctionInfo}
    (h : group ∈ registry.byCategory) :
    group.2 ≠ [] ∧ group.2 = registry.ofCategory group.1 := by
  obtain ⟨hgroup, hsome⟩ := List.mem_filter.mp h
  obtain ⟨category, -, rfl⟩ := List.mem_map.mp hgroup
  exact ⟨by simpa using hsome, rfl⟩

/-- Groups without functions are left out, which leaves no function out. -/
theorem flatMap_byCategory (registry : Registry) :
    registry.byCategory.flatMap (·.2) = Category.all.flatMap registry.ofCategory := by
  have hdropped : ∀ groups : List (Category × List FunctionInfo),
      (groups.filter fun group => !group.2.isEmpty).flatMap (·.2) = groups.flatMap (·.2) := by
    intro groups
    induction groups with
    | nil => rfl
    | cons group groups ih =>
      by_cases hempty : group.2 = [] <;> simp [hempty, ih]
  rw [byCategory, hdropped, List.flatMap_map]

/-- Every entry is of one of the categories, and of one only. -/
theorem filter_category_perm (entries : List Entry) :
    (Category.all.flatMap fun category => entries.filter (·.category = category)).Perm
      entries := by
  induction entries with
  | nil => rfl
  | cons entry rest ih =>
    simp only [Category.all, List.flatMap_cons, List.flatMap_nil, List.append_nil] at ih ⊢
    cases hcategory : entry.category with
    | math => simpa [hcategory] using ih
    | logic => simpa [hcategory] using List.perm_middle.trans (ih.cons entry)
    | statistical =>
      rw [← List.append_assoc] at ih ⊢
      simpa [hcategory] using List.perm_middle.trans (ih.cons entry)

theorem byCategory_perm (h : Distinct registry.entries) :
    (registry.byCategory.flatMap (·.2)).Perm (registry.entries.map (·.info)) := by
  rw [flatMap_byCategory]
  calc
    _ ~ Category.all.flatMap fun category =>
          (registry.entries.filter (·.category = category)).map (·.info) :=
      List.Perm.flatMap_left _ fun category _ => (lists_ofCategory h category).each_once
    _ = (Category.all.flatMap fun category =>
          registry.entries.filter (·.category = category)).map (·.info) := by
      rw [List.map_flatMap]
    _ ~ registry.entries.map (·.info) := (filter_category_perm registry.entries).map _

theorem categories_byCategory (registry : Registry) :
    (registry.byCategory.map (·.1)).Sublist Category.all := by
  have hall : (Category.all.map fun category => (category, registry.ofCategory category)).map
      (·.1) = Category.all := rfl
  rw [← hall]
  exact List.filter_sublist.map _

/-- Both listings hold functions as look-up finds them. -/
theorem lookup?_of_listed (h : Distinct registry.entries) {info : FunctionInfo}
    (hinfo : info ∈ registry.functions ∨ ∃ group ∈ registry.byCategory, info ∈ group.2) :
    ∃ entry, registry.lookup? info.name = some entry ∧ entry.info = info := by
  have hlisted : info ∈ registry.entries.map (·.info) := by
    rcases hinfo with hflat | hgrouped
    · exact (lists_functions h).each_once.subset hflat
    · exact (byCategory_perm h).subset (List.mem_flatMap.mpr hgrouped)
  obtain ⟨entry, hentry, rfl⟩ := List.mem_map.mp hlisted
  exact ⟨entry, (mem_iff_lookup? h).mp hentry, rfl⟩

/-- The listings of two registries with the same entries are the same. -/
theorem listings_of_perm {other : Registry} (h : Distinct registry.entries)
    (hother : Distinct other.entries) (hperm : other.entries.Perm registry.entries) :
    other.functions = registry.functions ∧ other.byCategory = registry.byCategory := by
  have hgroups : other.ofCategory = registry.ofCategory := by
    funext category
    exact (lists_ofCategory hother category).unique (lists_ofCategory h category)
      (hperm.filter _)
  refine ⟨(lists_functions hother).unique (lists_functions h) hperm, ?_⟩
  rw [byCategory, byCategory, hgroups]

/-- A registry answers like the sequence of registrations that it has come from.  Under a
name it finds the last registration with its key.  Each registration answers the one that it
has replaced, so that all of them have either been answered or are still there, and as many
are there as there are keys.  Both listings hold what is there, as it is found under its own
name, each entry once and in the order of the bytes of the names, the second one by
category.  Where no key is registered twice, the order of registration does not matter. -/
theorem registerAll_answers_as_calls (calls : List Entry) :
    let replaced := (empty.registerAll calls).1
    let registry := (empty.registerAll calls).2
    (∀ name, registry.lookup? name = lastOf calls name) ∧
      (replaced.length = calls.length ∧
        (∀ earlier call later, calls = earlier ++ call :: later →
          replaced[earlier.length]? = some (lastOf earlier call.name)) ∧
        (replaced.reduceOption ++ registry.entries).Perm calls) ∧
      registry.size = (calls.map Entry.key).dedup.length ∧
      (Distinct registry.entries ∧
        ∀ entry, entry ∈ registry.entries ↔ lastOf calls entry.name = some entry) ∧
      Lists registry.entries registry.functions ∧
      ((registry.byCategory.flatMap (·.2)).Perm (registry.entries.map (·.info)) ∧
        (registry.byCategory.map (·.1)).Sublist Category.all ∧
        ∀ group ∈ registry.byCategory, group.2 ≠ [] ∧
          Lists (registry.entries.filter (·.category = group.1)) group.2) ∧
      (∀ info, info ∈ registry.functions ∨ (∃ group ∈ registry.byCategory, info ∈ group.2) →
        ∃ entry, registry.lookup? info.name = some entry ∧ entry.info = info) ∧
      ∀ order : List Entry, Distinct calls → order.Perm calls →
        (empty.registerAll order).2.functions = registry.functions ∧
          (empty.registerAll order).2.byCategory = registry.byCategory := by
  intro replaced registry
  have hdistinct : Distinct registry.entries := distinct_empty_registerAll calls
  refine ⟨lookup?_empty_registerAll calls, ⟨length_replaced empty calls, ?_, ?_⟩,
    size_registerAll calls, ⟨hdistinct, fun entry => ?_⟩, lists_functions hdistinct,
    ⟨byCategory_perm hdistinct, categories_byCategory registry, fun group hgroup => ?_⟩,
    fun info hinfo => lookup?_of_listed hdistinct hinfo, fun order hcalls horder => ?_⟩
  · rintro earlier call later rfl
    rw [← lookup?_empty_registerAll]
    exact replaced_append empty earlier later call
  · exact empty_registerAll_perm calls
  · rw [mem_iff_lookup? hdistinct, lookup?_empty_registerAll]
  · obtain ⟨hsome, hgroup⟩ := of_mem_byCategory hgroup
    exact ⟨hsome, hgroup ▸ lists_ofCategory hdistinct group.1⟩
  · have hdistinctOrder : Distinct order := horder.pairwise_iff Ne.symm |>.mpr hcalls
    refine listings_of_perm hdistinct (distinct_empty_registerAll order) ?_
    exact (registerAll_perm_of_distinct hdistinctOrder).trans
      (horder.trans (registerAll_perm_of_distinct hcalls).symm)

/-- A name registered again in another case and for another category: the first entry is
answered and gone, and the second is listed before a name that its small letter would come
after.  Without the first one the order of the others does not matter. -/
theorem registerAll_answers_as_calls_of_recased :
    let entry (name : String) (category : Category) : Entry :=
      ⟨name, category, "Absolute value", .numeric (.exact 1) Math.abs⟩
    let first := entry "rate" .math
    let other := entry "avg" .statistical
    let second := entry "RATE" .logic
    let registry := (empty.registerAll [first, other, second]).2
    (registry.lookup? "Rate" = some second ∧ registry.lookup? "mean" = none) ∧
      (empty.registerAll [first, other, second]).1[2]? = some (some first) ∧
      registry.size = 2 ∧
      registry.functions = [second.info, other.info] ∧
      Distinct [other, second] ∧
      (empty.registerAll [second, other]).2.functions =
        (empty.registerAll [other, second]).2.functions := by
  intro entry first other second registry
  have hname : second.key = nameKey "Rate" := by decide +kernel
  have hsame : first.key = second.key := by decide +kernel
  have hfirst : first.key ≠ other.key := by decide +kernel
  have hother : other.key ≠ second.key := by decide +kernel
  have hdistinct : Distinct [other, second] := List.pairwise_pair.mpr hother
  obtain ⟨hlookup, ⟨-, hreplaced, -⟩, hsize, -, hlists, -⟩ :=
    registerAll_answers_as_calls [first, other, second]
  obtain ⟨-, -, -, -, -, -, -, horder⟩ := registerAll_answers_as_calls [other, second]
  refine ⟨⟨?_, ?_⟩, ?_, ?_, ?_, hdistinct, ?_⟩
  · rw [hlookup, lastOf_cons, lastOf_cons, lastOf_cons, if_pos hname]
    rfl
  · rw [hlookup, lastOf, List.find?_eq_none]
    decide +kernel
  · refine (hreplaced [first, other] second [] rfl).trans ?_
    have hlast : lastOf [first, other] second.name = some first := by
      rw [lastOf_cons, lastOf_cons, ← Entry.key, if_neg hother, if_pos hsame]
      rfl
    rw [hlast]
  · rw [hsize]
    decide
  · have hentries : registry.entries = [second, other] := by
      change put second (put other [first]) = [second, other]
      rw [put_of_key_ne hfirst, put_of_key_eq hsame]
      rfl
    have hleft : Lists [second, other] [second.info, other.info] :=
      ⟨List.Perm.refl _, List.pairwise_pair.mpr (by decide)⟩
    exact hlists.unique hleft (hentries ▸ List.Perm.refl _)
  · exact (horder [second, other] hdistinct (List.Perm.swap _ _ _)).1

end Registry

end DerivedTelemetry
