import ChatCommands.Config
import ChatCommands.Proofs.Attributes.NormalForm

/-!
# Reported problems and refused settings

When the program starts, it reports what is wrong with the prefix, the grammar symbols and the
nesting depth, and goes on; a setting that is wrong is refused where it is used. The report and the
use judge a setting on their own. They agree on all symbols. Of the prefix the report looks no
further than its type, and does not tell an empty setting from none; of the depth it takes whole
numbers only, where the use reads them from texts and fractions too.

## Main definitions

* `Config.Reports`, `Config.Refuses`: what is reported about a setting, and whether its use fails
* `Config.Overlooked`: prefixes that are refused although nothing is reported about them
* `Config.Needless`: depths that are reported on although nothing is wrong with them

## Main results

* `Config.attributes_refuses_iff`: attributes are refused if a setting for one of them is invalid
* `Config.reports_iff_refuses`: settings are reported on exactly if they are refused, but for these
* `Config.overlooked_and_needless`: there are both
-/

namespace ChatCommands

/-- The setting that an event is about. -/
def LogEvent.settingKey? : LogEvent → Option String
  | settingOfWrongType key _ => some key
  | settingOutOfRange key _ _ => some key
  | _ => none

namespace Config

open Attributes (symbolNames Valid)

/-- The settings that are looked at when the program starts. -/
def checkedKeys : List String := "prefix" :: symbolNames ++ ["max_chain_depth"]

/-- A problem with a setting is reported when the program starts. -/
def Reports (c : Config) (key : String) : Prop :=
  ∃ events, c.problems = .ok events ∧ ∃ e ∈ events, e.settingKey? = some key

/-- The configuration with one of its settings alone. -/
def only (c : Config) (key : String) : Config :=
  match c.settings with
  | .table fields => { c with settings := .table (fields.filter fun o => o.1 = key) }
  | _ => c

/-- The use of a setting: the prefix is made from it, or the attributes from it alone. -/
def use (c : Config) (key : String) : Except Fault Unit :=
  if key = "prefix" then do
    let _ ← Prefix.ofSetting (← c.prefixSetting)
  else do
    let _ ← (c.only key).attributes

/-- The use of a setting is refused. -/
def Refuses (c : Config) (key : String) : Prop :=
  ∃ f, c.use key = .error f ∧ f.name = "ConfigurationError"

/-- Settings that are refused although nothing is reported about them. -/
inductive Overlooked : String → Setting → Prop where
  | noPrefix : Overlooked "prefix" .null
  | noCandidates : Overlooked "prefix" (.list [])
  | badCandidate {items : List Setting} {v : Setting} (hv : v ∈ items) (ht : v.text? = none) :
    Overlooked "prefix" (.list items)

/-- Settings that are reported on although nothing is wrong with them. -/
inductive Needless : String → Setting → Prop where
  | text {s : String} {i : Int} (h : readWhole s = .ok i) (hi : 1 ≤ i) :
    Needless "max_chain_depth" (.text s)
  | decimal {d : Decimal} {i : Int} (h : d.whole? = some i) (hw : Attributes.withinWord i)
      (hi : 1 ≤ i) :
    Needless "max_chain_depth" (.scalar (.decimal d))

theorem Overlooked.key_eq {key : String} {v : Setting} (h : Overlooked key v) : key = "prefix" := by
  cases h <;> rfl

theorem Needless.key_eq {key : String} {v : Setting} (h : Needless key v) :
    key = "max_chain_depth" := by
  cases h <;> rfl

/-! ## Reports -/

section Reports

variable {c : Config} {fields : Fields} {key : String}

/-- What is reported about a setting. -/
def problemsOf (fields : Fields) (key : String) : List LogEvent :=
  if key = "prefix" then prefixProblems fields
  else if key = "max_chain_depth" then depthProblems fields
  else symbolProblems fields key

theorem prefixProblems_key : ∀ e ∈ prefixProblems fields, e.settingKey? = some "prefix" := by
  unfold prefixProblems
  split
  · exact nofun
  · exact nofun
  · exact nofun
  · exact List.forall_mem_singleton.mpr rfl

theorem symbolProblems_key : ∀ e ∈ symbolProblems fields key, e.settingKey? = some key := by
  unfold symbolProblems
  split
  · exact nofun
  · split
    · exact nofun
    · exact List.forall_mem_singleton.mpr rfl
  · exact List.forall_mem_singleton.mpr rfl

theorem depthProblems_key :
    ∀ e ∈ depthProblems fields, e.settingKey? = some "max_chain_depth" := by
  unfold depthProblems
  dsimp only
  split
  · exact nofun
  · exact nofun
  · split
    · exact nofun
    · exact List.forall_mem_singleton.mpr rfl
  · exact List.forall_mem_singleton.mpr rfl

theorem ne_of_mem_symbolNames (h : key ∈ symbolNames) :
    key ≠ "prefix" ∧ key ≠ "max_chain_depth" := by
  revert key
  decide

theorem problemsOf_symbol (h : key ∈ symbolNames) :
    problemsOf fields key = symbolProblems fields key := by
  obtain ⟨hlead, hdepth⟩ := ne_of_mem_symbolNames h
  rw [problemsOf, if_neg hlead, if_neg hdepth]

theorem problemsOf_key : ∀ e ∈ problemsOf fields key, e.settingKey? = some key := by
  unfold problemsOf
  split_ifs with hlead hdepth
  · exact hlead ▸ prefixProblems_key
  · exact hdepth ▸ depthProblems_key
  · exact symbolProblems_key

theorem problems_eq (hs : c.settings = .table fields) :
    c.problems = .ok (checkedKeys.flatMap (problemsOf fields)) := by
  have hsymbols : symbolNames.flatMap (symbolProblems fields) =
      symbolNames.flatMap (problemsOf fields) :=
    List.flatMap_congr fun key hk => (problemsOf_symbol hk).symm
  rw [problems, hs, checkedKeys]
  dsimp only
  rw [hsymbols, List.cons_append, List.flatMap_cons, List.flatMap_append, List.flatMap_singleton,
    List.append_assoc]
  rfl

/-- A setting is reported on if something is wrong with it by itself. -/
theorem reports_iff (hs : c.settings = .table fields) (hk : key ∈ checkedKeys) :
    c.Reports key ↔ problemsOf fields key ≠ [] := by
  rw [Reports, problems_eq hs]
  constructor
  · rintro ⟨_, hevents, e, he, hkey⟩
    obtain rfl := Except.ok.inj hevents
    obtain ⟨k, -, he⟩ := List.mem_flatMap.mp he
    obtain rfl : k = key := Option.some.inj ((problemsOf_key e he).symm.trans hkey)
    exact List.ne_nil_of_mem he
  · intro h
    obtain ⟨e, he⟩ := List.exists_mem_of_ne_nil _ h
    exact ⟨_, rfl, e, List.mem_flatMap.mpr ⟨key, hk, he⟩, problemsOf_key e he⟩

/-- Of a prefix only the type is looked at. -/
theorem prefixProblems_eq_nil_iff :
    prefixProblems fields = [] ↔ ∀ v, fields.lookup "prefix" = some v →
      v = .null ∨ (∃ s, v = .text s) ∨ ∃ items, v = .list items := by
  rw [prefixProblems]
  rcases fields.lookup "prefix" with - | v
  · simp
  · rcases v with (- | _ | _ | _ | _) | _ | _ <;> simp

theorem symbolProblems_eq_nil_iff :
    symbolProblems fields key = [] ↔ ∀ v, fields.lookup key = some v →
      v = .null ∨ ∃ s : String, v = .text s ∧ s.length = 1 := by
  rw [symbolProblems]
  rcases fields.lookup key with - | v
  · simp
  · rcases v with (- | _ | _ | _ | _) | _ | _ <;> simp

/-- Depths are whole numbers, and yes is the number one. -/
theorem depthProblems_eq_nil_iff :
    depthProblems fields = [] ↔ ∀ v, fields.lookup "max_chain_depth" = some v →
      v = .null ∨ v = .bool true ∨ ∃ i, v = .int i ∧ 1 ≤ i := by
  rw [depthProblems]
  rcases fields.lookup "max_chain_depth" with - | v
  · simp
  · rcases v with (- | (_ | _) | _ | _ | _) | _ | _ <;> simp

end Reports

/-! ## Valid settings -/

section Valid

open Attributes

variable {key : String} {v : Setting}

theorem valid_iff {α : Type} {reader : Checked α} {g : α → Setting}
    (h : coerce key v = g <$> reader) :
    Valid key v ↔ v = .null ∨ ∃ x, reader = .accepted x := by
  have hnull : v.isNull = true ↔ v = .null := ⟨eq_null_of_isNull, fun hv => hv ▸ rfl⟩
  rw [Valid, hnull, h]
  refine or_congr_right ⟨fun ⟨w, hw⟩ => ?_, fun ⟨x, hx⟩ => ⟨g x, by rw [hx]; rfl⟩⟩
  obtain ⟨x, hx, -⟩ := Checked.map_eq_accepted hw
  exact ⟨x, hx⟩

theorem readSymbol_accepts (field : String) (v : Setting) :
    (∃ c, readSymbol field v = .accepted c) ↔ ∃ s : String, v = .text s ∧ s.length = 1 := by
  constructor
  · rintro ⟨c, h⟩
    unfold readSymbol at h
    split at h
    next s =>
      split at h
      next c' hs => exact ⟨s, rfl, by rw [← String.length_toList, hs]; rfl⟩
      next => cases h
    next => cases h
  · rintro ⟨s, rfl, hs⟩
    obtain ⟨c, hc⟩ := List.length_eq_one_iff.mp ((String.length_toList).trans hs)
    exact ⟨c, by rw [readSymbol, hc]; rfl⟩

theorem valid_symbol (h : key ∈ symbolNames) :
    Valid key v ↔ v = .null ∨ ∃ s : String, v = .text s ∧ s.length = 1 := by
  rw [valid_iff (coerce_symbol h v), readSymbol_accepts]

theorem depthOfInt_accepts (field : String) (i : Int) :
    (∃ n, depthOfInt field i = .accepted n) ↔ 1 ≤ i := by
  unfold depthOfInt
  split
  next h => exact ⟨fun _ => by omega, fun _ => ⟨_, rfl⟩⟩
  next h => exact ⟨fun ⟨n, hn⟩ => (by cases hn), fun hi => absurd (by omega) h⟩

theorem needless_text {s : String} :
    Needless "max_chain_depth" (.text s) ↔ ∃ i, readWhole s = .ok i ∧ 1 ≤ i := by
  refine ⟨fun h => ?_, fun ⟨i, h, hi⟩ => .text h hi⟩
  cases h with
  | text h hi => exact ⟨_, h, hi⟩

theorem needless_decimal {d : Decimal} :
    Needless "max_chain_depth" (.scalar (.decimal d)) ↔
      ∃ i, d.whole? = some i ∧ withinWord i = true ∧ 1 ≤ i := by
  refine ⟨fun h => ?_, fun ⟨i, h, hw, hi⟩ => .decimal h hw hi⟩
  cases h with
  | decimal h hw hi => exact ⟨_, h, hw, hi⟩

theorem readDepth_text (field s : String) :
    (∃ n, readDepth field (.text s) = .accepted n) ↔ ∃ i, readWhole s = .ok i ∧ 1 ≤ i := by
  rw [readDepth]
  rcases readWhole s with f | i
  · simp [Checked.refuse]
  · exact (depthOfInt_accepts field i).trans (by simp)

theorem readDepth_decimal (field : String) (d : Decimal) :
    (∃ n, readDepth field (.scalar (.decimal d)) = .accepted n) ↔
      ∃ i, d.whole? = some i ∧ withinWord i = true ∧ 1 ≤ i := by
  rw [readDepth]
  rcases d.whole? with - | i
  · simp [Checked.refuse]
  · rcases hw : withinWord i with - | -
    · simp [Checked.refuse, hw]
    · simp only [hw, if_true]
      exact (depthOfInt_accepts field i).trans (by simp [hw])

/-- **Depths that can be used** are those that nothing is reported about, and those that are written
otherwise than as whole numbers. -/
theorem valid_depth :
    Valid "max_chain_depth" v ↔
      (v = .null ∨ v = .bool true ∨ ∃ i, v = .int i ∧ 1 ≤ i) ∨ Needless "max_chain_depth" v := by
  rw [valid_iff (coerce_depth v)]
  rcases v with (- | b | i | d | s) | items | fields
  · simp
  · have hb : (∃ n, readDepth "max_chain_depth" (.bool b) = .accepted n) ↔ 1 ≤ b.toInt :=
      depthOfInt_accepts _ _
    have hn : ¬Needless "max_chain_depth" (.bool b) := by rintro ⟨⟩
    rw [hb]
    cases b <;> simp [hn]
  · have hi : (∃ n, readDepth "max_chain_depth" (.int i) = .accepted n) ↔ 1 ≤ i :=
      depthOfInt_accepts _ _
    have hn : ¬Needless "max_chain_depth" (.int i) := by rintro ⟨⟩
    simp [hi, hn]
  · rw [readDepth_decimal, needless_decimal]
    simp
  · rw [readDepth_text, needless_text]
    simp
  · have hn : ¬Needless "max_chain_depth" (.list items) := by rintro ⟨⟩
    simp [readDepth, Checked.refuse, hn]
  · have hn : ¬Needless "max_chain_depth" (.table fields) := by rintro ⟨⟩
    simp [readDepth, Checked.refuse, hn]

end Valid

/-! ## Refusals -/

section Refusals

variable {c : Config} {fields : Fields} {key : String}

theorem attributeOptions_eq (hs : c.settings = .table fields) :
    c.attributeOptions =
      .ok (attributeKeys.filterMap fun k => (fields.lookup k).map fun v => (k, v)) := by
  rw [attributeOptions, hs]

/-- Options by names are named by them, each once. -/
theorem filterMap_names (names : List String) (f : String → Option Setting) :
    (names.filterMap fun k => (f k).map fun v => (k, v)).map Prod.fst =
      names.filter fun k => (f k).isSome := by
  induction names with
  | nil => rfl
  | cons k names ih =>
    rw [List.filterMap_cons, List.filter_cons]
    rcases f k with - | v
    · exact ih
    · exact congrArg (k :: ·) ih

/-- **Attributes are refused** if a setting for one of them is invalid, and only then. -/
theorem attributes_refuses_iff (hs : c.settings = .table fields) :
    (∃ f, c.attributes = .error f ∧ f.name = "ConfigurationError") ↔
      ∃ k ∈ attributeKeys, ∃ v, fields.lookup k = some v ∧ ¬Valid k v := by
  have hkeys : attributeKeys.Nodup ∧ Attributes.reader ∉ attributeKeys := by decide
  have hattributes : c.attributes = Attributes.ofOptions
      (attributeKeys.filterMap fun k => (fields.lookup k).map fun v => (k, v)) := by
    rw [attributes, attributeOptions_eq hs]
    rfl
  rw [hattributes, Attributes.ofOptions_refuses_iff]
  · constructor
    · rintro ⟨o, ho, hi⟩
      obtain ⟨k, hk, ho⟩ := List.mem_filterMap.mp ho
      obtain ⟨v, hv, rfl⟩ := Option.map_eq_some_iff.mp ho
      exact ⟨k, hk, v, hv, hi⟩
    · rintro ⟨k, hk, v, hv, hi⟩
      exact ⟨(k, v), List.mem_filterMap.mpr ⟨k, hk, by rw [hv]; rfl⟩, hi⟩
  · rw [filterMap_names]
    exact hkeys.1.filter _
  · rw [filterMap_names]
    exact fun h => hkeys.2 (List.mem_of_mem_filter h)

theorem lookup_only (hk : key ∈ attributeKeys) :
    (∃ k ∈ attributeKeys, ∃ v, (fields.filter fun o => o.1 = key).lookup k = some v ∧ ¬Valid k v) ↔
      ∃ v, fields.lookup key = some v ∧ ¬Valid key v := by
  have hsame : (fields.filter fun o => o.1 = key).lookup key = fields.lookup key := by
    rw [lookup_filter_congr (q := fun _ => true) fun v => by simp, List.filter_true]
  have hother {k : String} (h : k ≠ key) :
      (fields.filter fun o => o.1 = key).lookup k = none := by
    rw [lookup_filter_congr (q := fun _ => false) fun v => by simp [h],
      List.filter_false]
    rfl
  constructor
  · rintro ⟨k, -, v, hv, hi⟩
    by_cases h : k = key
    · subst h
      exact ⟨v, hsame ▸ hv, hi⟩
    · rw [hother h] at hv
      cases hv
  · rintro ⟨v, hv, hi⟩
    exact ⟨key, hk, v, hsame.trans hv, hi⟩

/-- An attribute alone is refused if its setting is invalid. -/
theorem refuses_attribute_iff (hs : c.settings = .table fields) (hk : key ∈ attributeKeys) :
    c.Refuses key ↔ ∃ v, fields.lookup key = some v ∧ ¬Valid key v := by
  have hlead : key ≠ "prefix" := by
    revert key
    decide
  have honly : (c.only key).settings = .table (fields.filter fun o => o.1 = key) := by
    rw [only, hs]
  rw [← lookup_only hk, ← attributes_refuses_iff honly, Refuses, use, if_neg hlead]
  rcases (c.only key).attributes with f | a
  · simp [bind, Except.bind]
  · simp [bind, Except.bind, pure, Except.pure]

theorem overlooked_list {items : List Setting} :
    Overlooked "prefix" (.list items) ↔ items = [] ∨ ∃ v ∈ items, v.text? = none := by
  constructor
  · intro h
    cases h with
    | noCandidates => exact .inl rfl
    | badCandidate hv ht => exact .inr ⟨_, hv, ht⟩
  · rintro (rfl | ⟨v, hv, ht⟩)
    · exact .noCandidates
    · exact .badCandidate hv ht

/-- **Prefixes that are refused** are those that something is reported about, and those that are
overlooked. -/
theorem ofSetting_refuses_iff (v : Setting) :
    (∃ f, Prefix.ofSetting v = .error f ∧ f.name = "ConfigurationError") ↔
      ¬(v = .null ∨ (∃ s, v = .text s) ∨ ∃ items, v = .list items) ∨ Overlooked "prefix" v := by
  rcases v with (- | _ | _ | _ | s) | items | _
  · exact ⟨fun _ => .inr .noPrefix, fun _ => ⟨_, rfl, rfl⟩⟩
  · exact ⟨fun _ => .inl (by simp), fun _ => ⟨_, rfl, rfl⟩⟩
  · exact ⟨fun _ => .inl (by simp), fun _ => ⟨_, rfl, rfl⟩⟩
  · exact ⟨fun _ => .inl (by simp), fun _ => ⟨_, rfl, rfl⟩⟩
  · have hn : ¬Overlooked "prefix" (.text s) := nofun
    simp [Prefix.ofSetting, hn]
  · rw [overlooked_list, Prefix.ofSetting]
    split
    next h =>
      have hbad : items = [] ∨ ∃ v ∈ items, v.text? = none := by simpa using h
      exact ⟨fun _ => .inr hbad, fun _ => ⟨_, rfl, rfl⟩⟩
    next h =>
      have hgood : ¬(items = [] ∨ ∃ v ∈ items, v.text? = none) := by simpa using h
      simp [hgood]
  · exact ⟨fun _ => .inl (by simp), fun _ => ⟨_, rfl, rfl⟩⟩

theorem refuses_prefix_iff (hs : c.settings = .table fields)
    (he : c.environment? "CHAINBOT_PREFIX" = none) :
    c.Refuses "prefix" ↔ ∃ v, fields.lookup "prefix" = some v ∧
      (¬(v = .null ∨ (∃ s, v = .text s) ∨ ∃ items, v = .list items) ∨ Overlooked "prefix" v) := by
  have huse : c.use "prefix" =
      (Prefix.ofSetting ((fields.lookup "prefix").getD (.text "!"))).map fun _ => () := by
    have hset : c.setting "prefix" (.text "!") =
        .ok ((fields.lookup "prefix").getD (.text "!")) := by
      rw [setting, hs]
      rfl
    rw [use, if_pos rfl, prefixSetting, he, hset]
    rfl
  have hmap {α : Type} (x : Except Fault α) :
      (∃ f, x.map (fun _ => ()) = .error f ∧ f.name = "ConfigurationError") ↔
        ∃ f, x = .error f ∧ f.name = "ConfigurationError" := by
    cases x <;> simp [Except.map]
  rw [Refuses, huse, hmap]
  rcases fields.lookup "prefix" with - | v
  · simp [Prefix.ofSetting]
  · rw [Option.getD_some, ofSetting_refuses_iff]
    simp

end Refusals

/-! ## Agreement -/

section Agreement

variable {c : Config} {fields : Fields} {key : String}

/-- The report on a symbol and its use agree. -/
theorem symbol_judged (hs : c.settings = .table fields) (hk : key ∈ symbolNames) :
    c.Reports key ↔ c.Refuses key := by
  have hchecked : key ∈ checkedKeys := List.mem_append_left _ (List.mem_cons_of_mem _ hk)
  rw [reports_iff hs hchecked, problemsOf_symbol hk, ne_eq, symbolProblems_eq_nil_iff,
    refuses_attribute_iff hs (List.mem_append_right _ hk)]
  simp only [not_forall, valid_symbol hk, exists_prop]

theorem prefix_judged (hs : c.settings = .table fields)
    (he : c.environment? "CHAINBOT_PREFIX" = none) {v : Setting}
    (hv : fields.lookup "prefix" = some v) :
    (c.Refuses "prefix" ↔ c.Reports "prefix" ∨ Overlooked "prefix" v) ∧
      (Overlooked "prefix" v → ¬c.Reports "prefix") := by
  have hreports : c.Reports "prefix" ↔
      ¬(v = .null ∨ (∃ s, v = .text s) ∨ ∃ items, v = .list items) := by
    rw [reports_iff hs (by decide), ne_eq, problemsOf, if_pos rfl, prefixProblems_eq_nil_iff, hv]
    simp only [Option.some.injEq, forall_eq']
  have hrefuses : c.Refuses "prefix" ↔
      ¬(v = .null ∨ (∃ s, v = .text s) ∨ ∃ items, v = .list items) ∨ Overlooked "prefix" v := by
    rw [refuses_prefix_iff hs he, hv]
    simp only [Option.some.injEq, exists_eq_left']
  refine ⟨by rw [hreports, hrefuses], fun ho => ?_⟩
  rw [hreports, not_not]
  cases ho with
  | noPrefix => exact .inl rfl
  | noCandidates => exact .inr (.inr ⟨_, rfl⟩)
  | badCandidate => exact .inr (.inr ⟨_, rfl⟩)

theorem depth_judged (hs : c.settings = .table fields) {v : Setting}
    (hv : fields.lookup "max_chain_depth" = some v) :
    (c.Reports "max_chain_depth" ↔
        c.Refuses "max_chain_depth" ∨ Needless "max_chain_depth" v) ∧
      (Needless "max_chain_depth" v → ¬c.Refuses "max_chain_depth") := by
  have hreports : c.Reports "max_chain_depth" ↔
      ¬(v = .null ∨ v = .bool true ∨ ∃ i, v = .int i ∧ 1 ≤ i) := by
    rw [reports_iff hs (by decide), ne_eq, problemsOf, if_neg (by decide), if_pos rfl,
      depthProblems_eq_nil_iff, hv]
    simp only [Option.some.injEq, forall_eq']
  have hrefuses : c.Refuses "max_chain_depth" ↔
      ¬((v = .null ∨ v = .bool true ∨ ∃ i, v = .int i ∧ 1 ≤ i) ∨
        Needless "max_chain_depth" v) := by
    rw [refuses_attribute_iff hs (by decide), hv]
    simp only [Option.some.injEq, exists_eq_left', valid_depth]
  -- A depth that is needlessly reported on is no whole number, and no empty setting.
  have hneedless : Needless "max_chain_depth" v →
      ¬(v = .null ∨ v = .bool true ∨ ∃ i, v = .int i ∧ 1 ≤ i) := by
    rintro (h | h) <;> simp
  refine ⟨?_, fun hn => ?_⟩
  · rw [hreports, hrefuses]
    constructor
    · intro h
      by_cases hn : Needless "max_chain_depth" v
      · exact .inr hn
      · exact .inl fun h' => h'.elim h hn
    · rintro (h | hn)
      · exact fun h' => h (.inl h')
      · exact hneedless hn
  · rw [hrefuses, not_not]
    exact .inr hn

/-- A setting that is not given is neither reported on nor refused. -/
theorem judged_of_absent (hs : c.settings = .table fields)
    (he : c.environment? "CHAINBOT_PREFIX" = none) (hk : key ∈ checkedKeys)
    (hn : fields.lookup key = none) : ¬c.Reports key ∧ ¬c.Refuses key := by
  rw [reports_iff hs hk, not_not, problemsOf]
  by_cases hlead : key = "prefix"
  · subst hlead
    rw [if_pos rfl, prefixProblems_eq_nil_iff, refuses_prefix_iff hs he, hn]
    simp
  · have hattribute : key ∈ attributeKeys := by
      simp only [checkedKeys, List.mem_append, List.mem_cons] at hk
      simp only [attributeKeys, List.mem_append, List.mem_cons]
      tauto
    rw [if_neg hlead, refuses_attribute_iff hs hattribute, hn]
    split_ifs with hdepth
    · subst hdepth
      rw [depthProblems_eq_nil_iff, hn]
      simp
    · rw [symbolProblems_eq_nil_iff, hn]
      simp

/-- **Settings are reported on exactly if they are refused**, unless they are among those that are
overlooked or needlessly reported on; and these are refused without a report, and reported on
without a refusal. -/
theorem reports_iff_refuses (hs : c.settings = .table fields)
    (he : c.environment? "CHAINBOT_PREFIX" = none) (hk : key ∈ checkedKeys) :
    ((∀ v, fields.lookup key = some v → ¬Overlooked key v ∧ ¬Needless key v) →
      (c.Reports key ↔ c.Refuses key)) ∧
    ∀ v, fields.lookup key = some v →
      (Overlooked key v → c.Refuses key ∧ ¬c.Reports key) ∧
        (Needless key v → c.Reports key ∧ ¬c.Refuses key) := by
  rcases hl : fields.lookup key with - | v
  · obtain ⟨hreports, hrefuses⟩ := judged_of_absent hs he hk hl
    exact ⟨fun _ => iff_of_false hreports hrefuses, fun v hv => by cases hv⟩
  simp only [Option.some.injEq, forall_eq']
  have hcases : key = "prefix" ∨ key ∈ symbolNames ∨ key = "max_chain_depth" := by
    simpa [checkedKeys] using hk
  rcases hcases with rfl | hsymbol | rfl
  · obtain ⟨hagree, hoverlooked⟩ := prefix_judged hs he hl
    refine ⟨fun h => ?_, fun ho => ?_, fun hn => absurd hn.key_eq (by decide)⟩
    · rw [hagree, or_iff_left h.1]
    · exact ⟨hagree.mpr (.inr ho), hoverlooked ho⟩
  · obtain ⟨hlead, hdepth⟩ := ne_of_mem_symbolNames hsymbol
    exact ⟨fun _ => symbol_judged hs hsymbol, fun ho => absurd ho.key_eq hlead,
      fun hn => absurd hn.key_eq hdepth⟩
  · obtain ⟨hagree, hneedless⟩ := depth_judged hs hl
    refine ⟨fun h => ?_, fun ho => absurd ho.key_eq (by decide), fun hn => ?_⟩
    · rw [hagree, or_iff_left h.2]
    · exact ⟨hagree.mpr (.inr hn), hneedless hn⟩

/-- A symbol of two characters is reported on and refused; an empty one is neither. -/
theorem reports_iff_refuses_symbols :
    let fields : Fields := [("quote_end", .text "ab"), ("previous", .null)]
    let c : Config := ⟨.table fields, [], .ofText "/", "/"⟩
    (c.settings = .table fields ∧ c.environment? "CHAINBOT_PREFIX" = none ∧
        "quote_end" ∈ checkedKeys ∧ "previous" ∈ checkedKeys) ∧
      (c.Reports "quote_end" ∧ c.Refuses "quote_end") ∧
      ¬c.Reports "previous" ∧ ¬c.Refuses "previous" := by
  intro fields c
  have hs : c.settings = .table fields := rfl
  have he : c.environment? "CHAINBOT_PREFIX" = none := rfl
  have hproblems :
      c.problems = .ok [.settingOutOfRange "quote_end" (.text "ab") "one character"] := by decide
  have hend : c.Reports "quote_end" := ⟨_, hproblems, _, List.mem_cons_self, rfl⟩
  have hprevious : ¬c.Reports "previous" := by
    rintro ⟨events, h, e, he, hkey⟩
    obtain rfl := Except.ok.inj (hproblems.symm.trans h)
    obtain rfl := List.mem_singleton.mp he
    revert hkey
    decide
  have hkeys : "quote_end" ∈ checkedKeys ∧ "previous" ∈ checkedKeys := by decide
  have hother {key : String} (h : key ≠ "prefix" ∧ key ≠ "max_chain_depth") (v : Setting) :
      ¬Overlooked key v ∧ ¬Needless key v :=
    ⟨fun ho => h.1 ho.key_eq, fun hn => h.2 hn.key_eq⟩
  have hagreeEnd : c.Reports "quote_end" ↔ c.Refuses "quote_end" :=
    (reports_iff_refuses hs he hkeys.1).1 fun v _ => hother (by decide) v
  have hagreePrevious : c.Reports "previous" ↔ c.Refuses "previous" :=
    (reports_iff_refuses hs he hkeys.2).1 fun v _ => hother (by decide) v
  exact ⟨⟨hs, he, hkeys⟩, ⟨hend, hagreeEnd.mp hend⟩, hprevious, hagreePrevious.not.mp hprevious⟩

/-- **There are both.** An empty prefix and a prefix among whose candidates is a number are refused
without a report; a depth in a text and a depth with places are reported on without a refusal. -/
theorem overlooked_and_needless :
    let config (key : String) (v : Setting) : Config := ⟨.table [(key, v)], [], .ofText "/", "/"⟩
    (∀ v ∈ [Setting.null, .list [], .list [.text "!", .int 1]],
      (config "prefix" v).Refuses "prefix" ∧ ¬(config "prefix" v).Reports "prefix") ∧
    ∀ v ∈ [Setting.text "5", .scalar (.decimal ⟨false, 50, 1⟩)],
      (config "max_chain_depth" v).Reports "max_chain_depth" ∧
        ¬(config "max_chain_depth" v).Refuses "max_chain_depth" := by
  intro config
  have hlead {v : Setting} (h : Overlooked "prefix" v) :
      (config "prefix" v).Refuses "prefix" ∧ ¬(config "prefix" v).Reports "prefix" := by
    obtain ⟨hagree, hoverlooked⟩ :=
      prefix_judged (c := config "prefix" v) (v := v) rfl rfl (by simp)
    exact ⟨hagree.mpr (.inr h), hoverlooked h⟩
  have hdepth {v : Setting} (h : Needless "max_chain_depth" v) :
      (config "max_chain_depth" v).Reports "max_chain_depth" ∧
        ¬(config "max_chain_depth" v).Refuses "max_chain_depth" := by
    obtain ⟨hagree, hneedless⟩ :=
      depth_judged (c := config "max_chain_depth" v) (v := v) rfl (by simp)
    exact ⟨hagree.mpr (.inr h), hneedless h⟩
  simp only [List.forall_mem_cons]
  refine ⟨⟨hlead .noPrefix, hlead .noCandidates, hlead ?_, nofun⟩, hdepth ?_, hdepth ?_,
    nofun⟩
  · exact .badCandidate (List.mem_cons_of_mem _ List.mem_cons_self) rfl
  · exact .text (i := 5) (by decide) (by decide)
  · exact .decimal (i := 5) (by decide) (by decide) (by decide)

end Agreement

end Config

end ChatCommands
