import Mathlib.Data.List.Basic
import ChatCommands.Attributes.Options

/-!
# Attributes in normal form

Every attribute is read on its own, by the reader that belongs to its name. So what is wrong with
options is what is wrong with each of them, attribute by attribute in the order in which they are
declared, and names that no attribute has behind them; and what attributes come to is what each
option comes to, with the defaults for those that are not given. What an option comes to is in
normal form: it is read as itself.

Loose options may be empty, which is as good as not giving them. There is one name that loose
options cannot have, since what reads them goes by it.

## Main definitions

* `Attributes.coerce`: what a value that is given for an attribute comes to
* `Attributes.fieldAt`, `Attributes.valueAt`: what options say of an attribute, and its value
* `Attributes.Normal`: values in normal form
* `Attributes.Valid`, `Attributes.FirstInvalid`: options that can be used, and the first that cannot

## Main results

* `Attributes.read_faults`: what is wrong with options, attribute by attribute
* `Attributes.fieldAt_of_read`: what attributes come to
* `Attributes.read_toOptions`: attributes are read from their own values
* `Attributes.ofOptions_normal`: loose options come to attributes in normal form, or are refused for
  the first of them that is invalid
* `Attributes.ofOptions_reader`: an option that is not refused as it should be
-/

namespace ChatCommands

/-! ## Checks -/

namespace Checked

variable {α β : Type}

@[simp] theorem faults_seq (f : Checked (α → β)) (a : Checked α) :
    (f <*> a).faults = f.faults ++ a.faults := by
  rcases f with f | ⟨x, xs⟩ <;> rcases a with a | ⟨y, ys⟩ <;>
    simp [Seq.seq, Checked.seq, faults]

@[simp] theorem faults_map (f : α → β) (a : Checked α) : (f <$> a).faults = a.faults := by
  cases a <;> rfl

theorem seq_eq_accepted {f : Checked (α → β)} {a : Checked α} {b : β}
    (h : f <*> a = accepted b) : ∃ g x, f = accepted g ∧ a = accepted x ∧ g x = b := by
  rcases f with g | ⟨y, ys⟩ <;> rcases a with x | ⟨z, zs⟩ <;> cases h
  exact ⟨g, x, rfl, rfl, rfl⟩

theorem map_eq_accepted {f : α → β} {a : Checked α} {b : β} (h : f <$> a = accepted b) :
    ∃ x, a = accepted x ∧ f x = b := by
  rcases a with x | ⟨y, ys⟩ <;> cases h
  exact ⟨x, rfl, rfl⟩

theorem faults_eq_nil_iff {a : Checked α} : a.faults = [] ↔ ∃ x, a = accepted x := by
  rcases a with x | ⟨y, ys⟩ <;> simp [faults]

theorem faults_eq_cons_iff {a : Checked α} {x : FieldFault} {xs : List FieldFault} :
    a.faults = x :: xs ↔ a = rejected x xs := by
  rcases a with a | ⟨y, ys⟩ <;> simp [faults]

end Checked

/-! ## Options by name -/

section Options

variable {options : Fields} {k : String} {v : Setting}

theorem lookup_cons_of_ne {n : String} (h : k ≠ n) (u : Setting) (os : Fields) :
    List.lookup k ((n, u) :: os) = os.lookup k := by
  rw [List.lookup_cons, beq_false_of_ne h]

theorem lookup_eq_some_iff_mem (hd : (options.map Prod.fst).Nodup) :
    options.lookup k = some v ↔ (k, v) ∈ options := by
  induction options with
  | nil => simp
  | cons o os ih =>
    obtain ⟨n, u⟩ := o
    obtain ⟨hn, hd⟩ := List.nodup_cons.mp hd
    by_cases hk : k = n
    · subst hk
      have hmem (w : Setting) : (k, w) ∉ os := fun h => hn (List.mem_map.mpr ⟨_, h, rfl⟩)
      simp [hmem, eq_comm]
    · rw [lookup_cons_of_ne hk, ih hd]
      simp [hk]

/-- Which other options are left out makes no difference to an option. -/
theorem lookup_filter_congr {p q : String × Setting → Bool} (h : ∀ v, p (k, v) = q (k, v)) :
    (options.filter p).lookup k = (options.filter q).lookup k := by
  induction options with
  | nil => rfl
  | cons o os ih =>
    obtain ⟨n, u⟩ := o
    by_cases hk : k = n
    · subst hk
      rw [List.filter_cons, List.filter_cons, h u]
      split
      · simp
      · exact ih
    · rw [List.filter_cons, List.filter_cons]
      split <;> split <;> simp only [lookup_cons_of_ne hk, ih]

end Options

namespace Attributes

/-! ## What options come to -/

/-- The attributes that are switches. -/
def switchNames : List String := ["advanced_functionality", "spaces_allowed", "parse_self"]

/-- What a value that is given for an attribute comes to, as a setting. -/
def coerce (field : String) (v : Setting) : Checked Setting :=
  if field ∈ switchNames then Setting.bool <$> readBool field v
  else if field = "help_command" then helpSetting <$> readHelpNames field v
  else if field ∈ nullable then messageSetting <$> readMessage field v
  else if field ∈ symbolNames then (fun c => .text c.toString) <$> readSymbol field v
  else if field = "max_chain_depth" then (fun n => .int n.1) <$> readDepth field v
  else .refuse field .unknown

/-- The value of an attribute, as a setting. -/
def valueAt (a : Attributes) (field : String) : Setting := (a.toOptions.lookup field).getD .null

/-- What options say of an attribute: what the option comes to, or the default. -/
def fieldAt (options : Fields) (field : String) : Checked Setting :=
  match options.lookup field with
  | none => pure (valueAt default field)
  | some v => coerce field v

section Fields

variable {α : Type} {options : Fields} {field : String} {d x : α}
  {reader : String → Setting → Checked α} {g : α → Setting}

theorem faults_readField (h : ∀ v, coerce field v = g <$> reader field v) :
    (readField options field d reader).faults = (fieldAt options field).faults := by
  rw [readField, fieldAt]
  rcases options.lookup field with - | v
  · rfl
  · simp [h]

theorem fieldAt_of_readField (h : ∀ v, coerce field v = g <$> reader field v)
    (hd : g d = valueAt default field) (hx : readField options field d reader = .accepted x) :
    fieldAt options field = .accepted (g x) := by
  rw [readField] at hx
  rw [fieldAt]
  rcases hl : options.lookup field with - | v <;> rw [hl] at hx
  · obtain rfl : d = x := Checked.accepted.inj hx
    rw [hd]
    rfl
  · dsimp only at hx ⊢
    rw [h, hx]
    rfl

end Fields

section Coerce

variable {field : String} {v : Setting}

theorem coerce_switch (h : field ∈ switchNames) (v : Setting) :
    coerce field v = Setting.bool <$> readBool field v := if_pos h

theorem coerce_help (v : Setting) :
    coerce "help_command" v = helpSetting <$> readHelpNames "help_command" v := by
  simp [coerce, switchNames]

theorem coerce_message (h : field ∈ nullable) (v : Setting) :
    coerce field v = messageSetting <$> readMessage field v := by
  simp only [nullable, List.mem_cons, List.not_mem_nil, or_false] at h
  rcases h with rfl | rfl <;> simp [coerce, switchNames, nullable]

theorem coerce_symbol (h : field ∈ symbolNames) (v : Setting) :
    coerce field v = (fun c : Char => .text c.toString) <$> readSymbol field v := by
  have hother : field ∉ switchNames ∧ field ≠ "help_command" ∧ field ∉ nullable := by
    revert field
    decide
  obtain ⟨hswitch, hhelp, hmessage⟩ := hother
  rw [coerce, if_neg hswitch, if_neg hhelp, if_neg hmessage, if_pos h]

theorem coerce_depth (v : Setting) :
    coerce "max_chain_depth" v =
      (fun n : { n : Nat // 0 < n } => .int n.1) <$> readDepth "max_chain_depth" v := by
  simp [coerce, switchNames, nullable, symbolNames]

/-- A name that no attribute has is wrong with any value. -/
theorem coerce_unknown (h : field ∉ fieldNames) (v : Setting) :
    coerce field v = .refuse field .unknown := by
  simp only [fieldNames, symbolNames, List.mem_append, List.mem_cons, not_or] at h
  simp [coerce, switchNames, nullable, symbolNames, h]

end Coerce

/-! ## What is wrong with options -/

theorem readNames_faults (options : Fields) :
    (readNames options).faults =
      (options.filter fun o => o.1 ∉ fieldNames).flatMap fun o => (coerce o.1 o.2).faults := by
  have hcoerce : ∀ o ∈ options.filter (fun o => o.1 ∉ fieldNames),
      (coerce o.1 o.2).faults = [⟨[o.1], .unknown⟩] := by
    intro o ho
    rw [coerce_unknown (by simpa using List.of_mem_filter ho)]
    rfl
  rw [List.flatMap_congr hcoerce, readNames]
  generalize options.filter (fun o => decide (o.1 ∉ fieldNames)) = unknown
  rcases unknown with - | ⟨o, os⟩
  · rfl
  · rw [Checked.faults, List.flatMap_cons, List.map_eq_flatMap]
    rfl

theorem readSymbols_faults (options : Fields) :
    (readSymbols options).faults =
      symbolNames.flatMap fun k => (fieldAt options k).faults := by
  have hsymbol {k : String} (h : k ∈ symbolNames) (d : Char) :
      (readField options k d readSymbol).faults = (fieldAt options k).faults :=
    faults_readField fun v => coerce_symbol h v
  simp only [readSymbols, Checked.faults_seq, Checked.faults_map]
  rw [hsymbol (by decide), hsymbol (by decide), hsymbol (by decide), hsymbol (by decide),
    hsymbol (by decide), hsymbol (by decide), hsymbol (by decide)]
  simp [symbolNames]

/-- **What is wrong with options** is what is wrong with each of them: attributes in the order in
which they are declared, and then the names that no attribute has. -/
theorem read_faults (options : Fields) :
    (read options).faults = (fieldNames.flatMap fun k => (fieldAt options k).faults) ++
      (options.filter fun o => o.1 ∉ fieldNames).flatMap fun o => (coerce o.1 o.2).faults := by
  have hswitch {k : String} (h : k ∈ switchNames) (d : Bool) :
      (readField options k d readBool).faults = (fieldAt options k).faults :=
    faults_readField fun v => coerce_switch h v
  have hmessage {k : String} (h : k ∈ nullable) (d : Option String) :
      (readField options k d readMessage).faults = (fieldAt options k).faults :=
    faults_readField fun v => coerce_message h v
  simp only [read, Checked.faults_seq, Checked.faults_map, readNames_faults, readSymbols_faults]
  rw [hswitch (by decide), faults_readField coerce_help, hmessage (by decide),
    hmessage (by decide), hswitch (by decide), hswitch (by decide), faults_readField coerce_depth]
  simp [fieldNames]

/-! ## What attributes come to -/

theorem fieldAt_of_readSymbols {options : Fields} {y : Symbols}
    (h : readSymbols options = .accepted y) (a : Attributes) (ha : a.symbols = y) :
    ∀ k ∈ symbolNames, fieldAt options k = .accepted (a.valueAt k) := by
  subst ha
  have hsymbol {k : String} {d c : Char} (hk : k ∈ symbolNames)
      (hd : .text d.toString = valueAt default k)
      (hc : readField options k d readSymbol = .accepted c) :
      fieldAt options k = .accepted (.text c.toString) :=
    fieldAt_of_readField (g := fun c : Char => .text c.toString) (coerce_symbol hk) hd hc
  -- The readers of the symbols are taken off one by one, the last one first.
  obtain ⟨_, quoteEnd, h₁, hquoteEnd, hy⟩ := Checked.seq_eq_accepted h
  obtain ⟨_, quoteStart, h₂, hquoteStart, rfl⟩ := Checked.seq_eq_accepted h₁
  obtain ⟨_, subEnd, h₃, hsubEnd, rfl⟩ := Checked.seq_eq_accepted h₂
  obtain ⟨_, subStart, h₄, hsubStart, rfl⟩ := Checked.seq_eq_accepted h₃
  obtain ⟨_, argsDelimiter, h₅, hargsDelimiter, rfl⟩ := Checked.seq_eq_accepted h₄
  obtain ⟨_, delimiter, h₆, hdelimiter, rfl⟩ := Checked.seq_eq_accepted h₅
  obtain ⟨previous, hprevious, rfl⟩ := Checked.map_eq_accepted h₆
  simp only [symbolNames, List.forall_mem_cons]
  simp only [valueAt, toOptions, ← hy]
  exact ⟨hsymbol (by decide) rfl hprevious, hsymbol (by decide) rfl hdelimiter,
    hsymbol (by decide) rfl hargsDelimiter, hsymbol (by decide) rfl hsubStart,
    hsymbol (by decide) rfl hsubEnd, hsymbol (by decide) rfl hquoteStart,
    hsymbol (by decide) rfl hquoteEnd, nofun⟩

/-- **What attributes come to**: each of them is what its option comes to, or its default. -/
theorem fieldAt_of_read {options : Fields} {a : Attributes} (h : read options = .accepted a) :
    ∀ k ∈ fieldNames, fieldAt options k = .accepted (a.valueAt k) := by
  have hswitch {k : String} {d b : Bool} (hk : k ∈ switchNames)
      (hd : .bool d = valueAt default k)
      (hb : readField options k d readBool = .accepted b) :
      fieldAt options k = .accepted (.bool b) :=
    fieldAt_of_readField (coerce_switch hk) hd hb
  have hmessage {k : String} {d m : Option String} (hk : k ∈ nullable)
      (hd : messageSetting d = valueAt default k)
      (hm : readField options k d readMessage = .accepted m) :
      fieldAt options k = .accepted (messageSetting m) :=
    fieldAt_of_readField (coerce_message hk) hd hm
  obtain ⟨_, _, h₁, -, ha⟩ := Checked.seq_eq_accepted h
  obtain ⟨_, depth, h₂, hdepth, rfl⟩ := Checked.seq_eq_accepted h₁
  obtain ⟨_, symbols, h₃, hsymbols, rfl⟩ := Checked.seq_eq_accepted h₂
  obtain ⟨_, parseSelf, h₄, hparseSelf, rfl⟩ := Checked.seq_eq_accepted h₃
  obtain ⟨_, spaces, h₅, hspaces, rfl⟩ := Checked.seq_eq_accepted h₄
  obtain ⟨_, noPermission, h₆, hnoPermission, rfl⟩ := Checked.seq_eq_accepted h₅
  obtain ⟨_, notFound, h₇, hnotFound, rfl⟩ := Checked.seq_eq_accepted h₆
  obtain ⟨_, helpNames, h₈, hhelp, rfl⟩ := Checked.seq_eq_accepted h₇
  obtain ⟨advanced, hadvanced, rfl⟩ := Checked.map_eq_accepted h₈
  have hs := fieldAt_of_readSymbols hsymbols a (by rw [← ha])
  simp only [fieldNames, List.forall_mem_append, List.forall_mem_cons]
  refine ⟨⟨⟨?_, ?_, ?_, ?_, ?_, ?_, nofun⟩, hs⟩, ?_, nofun⟩
  all_goals simp only [valueAt, toOptions, ← ha]
  · exact hswitch (by decide) rfl hadvanced
  · exact fieldAt_of_readField (g := helpSetting) coerce_help rfl hhelp
  · exact hmessage (by decide) rfl hnotFound
  · exact hmessage (by decide) rfl hnoPermission
  · exact hswitch (by decide) rfl hspaces
  · exact hswitch (by decide) rfl hparseSelf
  · exact fieldAt_of_readField (g := fun n => .int n.1) coerce_depth rfl hdepth

/-! ## Normal forms -/

section Readers

variable (field : String)

theorem readHelpNames_helpSetting (n : HelpNames) :
    readHelpNames field (helpSetting n) = .accepted n := by
  cases n with
  | disabled => rfl
  | one name => rfl
  | many names =>
    have hfaults : nameFaults field (names.map .text) = [] := by
      refine List.filterMap_eq_nil_iff.mpr ?_
      rintro ⟨v, i⟩ hv
      obtain ⟨name, -, rfl⟩ := List.mem_map.mp (List.fst_mem_of_mem_zipIdx hv)
      rfl
    have htexts : (names.map Setting.text).filterMap Setting.text? = names := by
      rw [List.filterMap_map]
      exact List.filterMap_some
    simp only [helpSetting, readHelpNames, hfaults, htexts]
    rfl

theorem readMessage_messageSetting (m : Option String) :
    readMessage field (messageSetting m) = .accepted m := by
  cases m <;> rfl

theorem readSymbol_toString (c : Char) : readSymbol field (.text c.toString) = .accepted c := by
  have hc : c.toString.toList = [c] := by rw [Char.toString_eq_singleton, String.toList_singleton]
  rw [readSymbol, hc]
  rfl

theorem readDepth_int (n : { n : Nat // 0 < n }) : readDepth field (.int n.1) = .accepted n := by
  rw [readDepth, depthOfInt, dif_pos (by simpa using n.2)]
  rfl

end Readers

/-- **Attributes are read from their own values.** -/
theorem read_toOptions (a : Attributes) : read a.toOptions = .accepted a := by
  have hread {α : Type} {k : String} {d x : α} {reader : String → Setting → Checked α} {v : Setting}
      (hk : a.toOptions.lookup k = some v) (hx : reader k v = .accepted x) :
      readField a.toOptions k d reader = .accepted x := by
    rw [readField, hk]
    exact hx
  have hswitch {k : String} {d b : Bool} (hk : a.toOptions.lookup k = some (.bool b)) :
      readField a.toOptions k d readBool = .accepted b := hread hk rfl
  have hmessage {k : String} {d m : Option String}
      (hk : a.toOptions.lookup k = some (messageSetting m)) :
      readField a.toOptions k d readMessage = .accepted m :=
    hread hk (readMessage_messageSetting k m)
  have hsymbol {k : String} {d c : Char} (hk : a.toOptions.lookup k = some (.text c.toString)) :
      readField a.toOptions k d readSymbol = .accepted c := hread hk (readSymbol_toString k c)
  have hsymbols : readSymbols a.toOptions = .accepted a.symbols := by
    rw [readSymbols, hsymbol rfl, hsymbol rfl, hsymbol rfl, hsymbol rfl, hsymbol rfl, hsymbol rfl,
      hsymbol rfl]
    rfl
  have hnames : readNames a.toOptions = .accepted () := by
    have hknown : a.toOptions.filter (fun o => decide (o.1 ∉ fieldNames)) = [] := by
      simp [toOptions, fieldNames, symbolNames]
    rw [readNames, hknown]
    rfl
  rw [read, hswitch rfl, hread rfl (readHelpNames_helpSetting _ a.helpNames), hmessage rfl,
    hmessage rfl, hswitch rfl, hswitch rfl, hsymbols,
    hread rfl (readDepth_int _ ⟨a.maxDepth, a.maxDepth_pos⟩), hnames]
  rfl

/-- Values of attributes in normal form. -/
structure Normal (field : String) (v : Setting) : Prop where
  switch : field ∈ switchNames → ∃ b, v = .bool b
  help : field = "help_command" → v = .null ∨ (∃ name, v = .text name) ∨
    ∃ names : List String, v = .list (names.map .text)
  message : field ∈ nullable → v = .null ∨ ∃ s, v = .text s
  /-- A symbol is one character. -/
  symbol : field ∈ symbolNames → ∃ s : String, v = .text s ∧ s.length = 1
  depth : field = "max_chain_depth" → ∃ n : Nat, v = .int n ∧ 1 ≤ n

theorem normal_valueAt (a : Attributes) (field : String) : Normal field (a.valueAt field) := by
  have hmessage (m : Option String) :
      messageSetting m = .null ∨ ∃ s, messageSetting m = .text s := by
    cases m with
    | none => exact .inl rfl
    | some s => exact .inr ⟨s, rfl⟩
  have hsymbol (c : Char) : ∃ s : String, Setting.text c.toString = .text s ∧ s.length = 1 :=
    ⟨_, rfl, by rw [Char.toString_eq_singleton, String.length_singleton]⟩
  constructor
  case switch =>
    simp only [switchNames, List.mem_cons, List.not_mem_nil, or_false]
    rintro (rfl | rfl | rfl) <;> exact ⟨_, rfl⟩
  case help =>
    rintro rfl
    have hvalue : a.valueAt "help_command" = helpSetting a.helpNames := rfl
    rw [hvalue]
    rcases a.helpNames with - | name | names
    · exact .inl rfl
    · exact .inr (.inl ⟨name, rfl⟩)
    · exact .inr (.inr ⟨names, rfl⟩)
  case message =>
    simp only [nullable, List.mem_cons, List.not_mem_nil, or_false]
    rintro (rfl | rfl) <;> exact hmessage _
  case symbol =>
    simp only [symbolNames, List.mem_cons, List.not_mem_nil, or_false]
    rintro (rfl | rfl | rfl | rfl | rfl | rfl | rfl) <;> exact hsymbol _
  case depth =>
    rintro rfl
    exact ⟨a.maxDepth, rfl, a.maxDepth_pos⟩

/-! ## Where faults are found -/

end Attributes

/-- All that is wrong is found at an attribute. -/
def Checked.At {α : Type} (field : String) (c : Checked α) : Prop :=
  ∀ f ∈ c.faults, f.location.head? = some field

namespace Checked

variable {α β : Type} {field : String}

theorem at_pure (a : α) : At field (pure a) := nofun

theorem at_refuse (fault : OptionFault) : At field (refuse field fault : Checked α) := by
  intro f hf
  obtain rfl := List.mem_singleton.mp hf
  rfl

theorem At.map {a : Checked α} (h : At field a) (g : α → β) : At field (g <$> a) := by
  rw [At, faults_map]
  exact h

end Checked

namespace Attributes

section Places

open Checked

variable (field : String) (v : Setting)

theorem boolOfInt_at (i : Int) : At field (boolOfInt field i) := by
  unfold boolOfInt
  split_ifs
  · exact at_pure _
  · exact at_pure _
  · exact at_refuse _
  · exact at_refuse _

theorem readBool_at : At field (readBool field v) := by
  unfold readBool
  split
  · exact at_pure _
  · exact boolOfInt_at field _
  · split
    · split
      · exact boolOfInt_at field _
      · exact at_refuse _
    · exact at_refuse _
  · split
    · exact at_pure _
    · exact at_refuse _
  · exact at_refuse _

theorem readMessage_at : At field (readMessage field v) := by
  unfold readMessage
  split
  · exact at_pure _
  · exact at_pure _
  · exact at_refuse _

theorem readSymbol_at : At field (readSymbol field v) := by
  unfold readSymbol
  split
  · split
    · exact at_pure _
    · exact at_refuse _
  · exact at_refuse _

theorem depthOfInt_at (i : Int) : At field (depthOfInt field i) := by
  unfold depthOfInt
  split
  · exact at_pure _
  · exact at_refuse _

theorem readDepth_at : At field (readDepth field v) := by
  unfold readDepth
  split
  · exact depthOfInt_at field _
  · exact depthOfInt_at field _
  · split
    · split
      · exact depthOfInt_at field _
      · exact at_refuse _
    · exact at_refuse _
  · split
    · exact depthOfInt_at field _
    · exact at_refuse _
  · exact at_refuse _

/-- The faults of a list of names are found at its items. -/
theorem nameFaults_at (items : List Setting) :
    ∀ f ∈ nameFaults field items, f.location.head? = some field := by
  intro f hf
  obtain ⟨⟨item, i⟩, -, hi⟩ := List.mem_filterMap.mp hf
  dsimp only at hi
  split at hi
  · cases hi
  · obtain rfl := Option.some.inj hi
    rfl

theorem readHelpNames_at : At field (readHelpNames field v) := by
  unfold readHelpNames
  split
  · exact at_pure _
  · exact at_pure _
  · exact at_pure _
  next items =>
    have hitems := nameFaults_at field items
    split
    · exact at_pure _
    next fs hfs => exact List.forall_mem_cons.mpr ⟨rfl, hitems⟩
  · exact List.forall_mem_cons.mpr ⟨rfl, List.forall_mem_cons.mpr ⟨rfl, nofun⟩⟩

/-- What is wrong with an option is found at its attribute. -/
theorem coerce_at : At field (coerce field v) := by
  unfold coerce
  split_ifs with _ hhelp _ _ hdepth
  · exact (readBool_at field v).map _
  · exact (readHelpNames_at field v).map _
  · exact (readMessage_at field v).map _
  · exact (readSymbol_at field v).map _
  · exact (readDepth_at field v).map _
  · exact at_refuse _

end Places

/-! ## Empty options -/

/-- The options that are not empty. -/
def present (options : Fields) : Fields := options.filter fun o => !o.2.isNull

section Present

variable {options : Fields} {field : String} {v : Setting}

theorem mem_present : (field, v) ∈ present options ↔ (field, v) ∈ options ∧ v.isNull = false := by
  simp [present]

theorem nodup_filter (hd : (options.map Prod.fst).Nodup) (p : String × Setting → Bool) :
    ((options.filter p).map Prod.fst).Nodup :=
  hd.sublist (List.filter_sublist.map Prod.fst)

theorem lookup_present (hd : (options.map Prod.fst).Nodup) :
    (present options).lookup field = some v ↔ (field, v) ∈ options ∧ v.isNull = false :=
  (lookup_eq_some_iff_mem (nodup_filter hd _)).trans mem_present

theorem eq_null_of_isNull (h : v.isNull = true) : v = .null := by
  unfold Setting.isNull at h
  split at h
  · rfl
  · cases h

theorem lookup_present_eq (hd : (options.map Prod.fst).Nodup) :
    (present options).lookup field = (options.lookup field).filter fun v => !v.isNull := by
  refine Option.ext fun v => ?_
  rw [lookup_present hd, Option.filter_eq_some_iff, lookup_eq_some_iff_mem hd,
    Bool.not_eq_true']

/-- An empty message is no message, which is the default too. -/
theorem readMessage_given (hd : (options.map Prod.fst).Nodup) (hf : field ∈ nullable) :
    readField (given options) field none readMessage =
      readField (present options) field none readMessage := by
  have hall : (given options).lookup field = options.lookup field := by
    rw [given, lookup_filter_congr (q := fun _ => true) fun v => by simp [hf], List.filter_true]
  rw [readField, readField, hall, lookup_present_eq hd]
  rcases options.lookup field with - | v
  · rfl
  · rcases hn : v.isNull with - | -
    · rw [Option.filter_some_pos (by rw [hn]; rfl)]
    · obtain rfl := eq_null_of_isNull hn
      rfl

theorem readNames_given (options : Fields) :
    readNames (given options) = readNames (present options) := by
  have hnullable : ∀ k ∈ nullable, k ∈ fieldNames := by decide
  have hfilter : (given options).filter (fun o => decide (o.1 ∉ fieldNames)) =
      (present options).filter fun o => decide (o.1 ∉ fieldNames) := by
    rw [given, present, List.filter_filter, List.filter_filter]
    refine List.filter_congr ?_
    intro o _
    by_cases ho : o.1 ∈ nullable
    · simp [hnullable _ ho]
    · simp [ho]
  rw [readNames, readNames, hfilter]

/-- It makes no difference whether the empty options that have a meaning of their own are kept. -/
theorem read_given (hd : (options.map Prod.fst).Nodup) :
    read (given options) = read (present options) := by
  have hother {α : Type} {k : String} {d : α} {reader : String → Setting → Checked α}
      (hk : k ∉ nullable) :
      readField (given options) k d reader = readField (present options) k d reader := by
    have hl : (given options).lookup k = (present options).lookup k :=
      lookup_filter_congr fun v => by simp [hk]
    rw [readField, readField, hl]
  have hnotFound : readField (given options) "command_doesnt_exist_message"
      (default : Attributes).notFoundMessage readMessage =
        readField (present options) "command_doesnt_exist_message"
          (default : Attributes).notFoundMessage readMessage :=
    readMessage_given hd (by decide)
  have hnoPermission : readField (given options) "no_permission_message"
      (default : Attributes).noPermissionMessage readMessage =
        readField (present options) "no_permission_message"
          (default : Attributes).noPermissionMessage readMessage :=
    readMessage_given hd (by decide)
  have hsymbols : readSymbols (given options) = readSymbols (present options) := by
    simp only [readSymbols]
    rw [hother (by decide), hother (by decide), hother (by decide), hother (by decide),
      hother (by decide), hother (by decide), hother (by decide)]
  simp only [read]
  rw [hother (by decide), hother (by decide), hnotFound, hnoPermission, hother (by decide),
    hother (by decide), hsymbols, hother (by decide), readNames_given]

/-- Loose options, unless one of them has the name that none can have, come to what the options that
are not empty come to. -/
theorem ofOptions_eq (hd : (options.map Prod.fst).Nodup) (hr : reader ∉ options.map Prod.fst) :
    ofOptions options =
      match read (present options) with
      | .accepted a => .ok a
      | .rejected f _ =>
        .error (misconfigured f.place ("Invalid bot attributes: " ++ f.fault.message)) := by
  have hl : options.lookup reader = none := by
    rw [Option.eq_none_iff_forall_ne_some]
    intro v hv
    exact hr (List.mem_map.mpr ⟨_, (lookup_eq_some_iff_mem hd).mp hv, rfl⟩)
  rw [ofOptions, hl, read_given hd]
  rfl

end Present

/-! ## The first option that is invalid -/

/-- An option that can be used: an empty one asks for the default, any other comes to a value. -/
def Valid (field : String) (v : Setting) : Prop :=
  v.isNull = true ∨ ∃ w, coerce field v = .accepted w

/-- The first option that cannot be used, in the order in which attributes are declared; one that no
attribute has the name of comes behind all attributes. -/
inductive FirstInvalid (options : Fields) : String → Setting → Prop where
  | declared {before after : List String} {field : String} {v : Setting}
      (h : fieldNames = before ++ field :: after) (hv : (field, v) ∈ options)
      (hi : ¬Valid field v) (hb : ∀ o ∈ options, o.1 ∈ before → Valid o.1 o.2) :
    FirstInvalid options field v
  | unknown {before after : Fields} {field : String} {v : Setting}
      (h : options = before ++ (field, v) :: after) (hf : field ∉ fieldNames)
      (hi : ¬Valid field v) (hd : ∀ o ∈ options, o.1 ∈ fieldNames → Valid o.1 o.2)
      (hb : ∀ o ∈ before, Valid o.1 o.2) :
    FirstInvalid options field v

section First

variable {options : Fields} {field : String} {v : Setting} {first : FieldFault}
  {more : List FieldFault}

theorem FirstInvalid.mem (h : FirstInvalid options field v) : (field, v) ∈ options := by
  cases h with
  | declared _ hv => exact hv
  | unknown h => exact h ▸ List.mem_append_right _ List.mem_cons_self

theorem FirstInvalid.not_valid (h : FirstInvalid options field v) : ¬Valid field v := by
  cases h with
  | declared _ _ hi => exact hi
  | unknown _ _ hi => exact hi

theorem not_valid_of_rejected (hn : v.isNull = false) (hc : coerce field v = .rejected first more) :
    ¬Valid field v := by
  rintro (h | ⟨w, h⟩)
  · rw [hn] at h
    cases h
  · rw [hc] at h
    cases h

theorem valid_of_fieldAt (hd : (options.map Prod.fst).Nodup)
    (hf : (fieldAt (present options) field).faults = []) (hv : (field, v) ∈ options) :
    Valid field v := by
  rcases hn : v.isNull with - | -
  · rw [fieldAt, (lookup_present hd).mpr ⟨hv, hn⟩] at hf
    exact .inr (Checked.faults_eq_nil_iff.mp hf)
  · exact .inl hn

/-- Where lists are joined, the first item is that of the first list that is not empty. -/
theorem exists_of_flatMap_eq_cons {α β : Type} {f : α → List β} {l : List α} {x : β} {xs : List β}
    (h : l.flatMap f = x :: xs) :
    ∃ before a after ys, l = before ++ a :: after ∧ (∀ b ∈ before, f b = []) ∧ f a = x :: ys := by
  induction l with
  | nil => cases h
  | cons a l ih =>
    rcases ha : f a with - | ⟨y, ys⟩
    · rw [List.flatMap_cons, ha] at h
      obtain ⟨before, b, after, ys, rfl, hb, hf⟩ := ih h
      exact ⟨a :: before, b, after, ys, rfl, List.forall_mem_cons.mpr ⟨ha, hb⟩, hf⟩
    · rw [List.flatMap_cons, ha] at h
      obtain rfl := (List.cons.inj h).1
      exact ⟨[], a, l, ys, rfl, nofun, ha⟩

/-- **The first fault** is that of the first option that is invalid. -/
theorem exists_firstInvalid (hd : (options.map Prod.fst).Nodup)
    (h : read (present options) = .rejected first more) :
    ∃ field v rest, FirstInvalid options field v ∧ coerce field v = .rejected first rest := by
  have hfaults : (read (present options)).faults = first :: more :=
    Checked.faults_eq_cons_iff.mpr h
  rw [read_faults, List.append_eq_cons_iff] at hfaults
  obtain ⟨hnone, hunknown⟩ | ⟨rest, hdeclared, -⟩ := hfaults
  · -- All attributes can be read, and a name is left that none of them has.
    have hvalid : ∀ o ∈ options, o.1 ∈ fieldNames → Valid o.1 o.2 := fun o ho hk =>
      valid_of_fieldAt hd (List.flatMap_eq_nil_iff.mp hnone o.1 hk) ho
    rw [present, List.filter_filter] at hunknown
    obtain ⟨before, ⟨field, v⟩, after, rest, hl, hbefore, hc⟩ := exists_of_flatMap_eq_cons hunknown
    have hlast : before = [] := by
      rcases before with - | ⟨o, before⟩
      · rfl
      · have ho : o ∈ options.filter _ := hl ▸ List.mem_append_left _ List.mem_cons_self
        have hkeep := Bool.and_eq_true_iff.mp (List.mem_filter.mp ho).2
        have hname : o.1 ∉ fieldNames := by simpa using hkeep.1
        have hfault := hbefore o List.mem_cons_self
        rw [coerce_unknown hname] at hfault
        cases hfault
    subst hlast
    obtain ⟨l₁, l₂, rfl, hl₁, hp, -⟩ := List.filter_eq_cons_iff.mp hl
    obtain ⟨hname, hn⟩ : field ∉ fieldNames ∧ v.isNull = false := by simpa using hp
    have hc := Checked.faults_eq_cons_iff.mp hc
    refine ⟨field, v, rest, .unknown rfl hname (not_valid_of_rejected hn hc) hvalid ?_, hc⟩
    intro o ho
    by_cases hk : o.1 ∈ fieldNames
    · exact hvalid o (List.mem_append_left _ ho) hk
    · exact .inl (by simpa [hk] using hl₁ o ho)
  · obtain ⟨before, field, after, rest, hl, hbefore, hc⟩ := exists_of_flatMap_eq_cons hdeclared
    rw [fieldAt] at hc
    rcases hv : (present options).lookup field with - | v <;> rw [hv] at hc
    · cases hc
    · obtain ⟨hv, hn⟩ := (lookup_present hd).mp hv
      have hc := Checked.faults_eq_cons_iff.mp hc
      refine ⟨field, v, rest, .declared hl hv (not_valid_of_rejected hn hc) ?_, hc⟩
      exact fun o ho hk => valid_of_fieldAt hd (hbefore o.1 hk) ho

/-- Options that come to attributes can all be used. -/
theorem valid_of_read (hd : (options.map Prod.fst).Nodup) {a : Attributes}
    (h : read (present options) = .accepted a) : ∀ o ∈ options, Valid o.1 o.2 := by
  have hfaults : (read (present options)).faults = [] := Checked.faults_eq_nil_iff.mpr ⟨a, h⟩
  rw [read_faults, List.append_eq_nil_iff] at hfaults
  obtain ⟨hdeclared, hunknown⟩ := hfaults
  intro o ho
  by_cases hk : o.1 ∈ fieldNames
  · exact valid_of_fieldAt hd (List.flatMap_eq_nil_iff.mp hdeclared o.1 hk) ho
  · rcases hn : o.2.isNull with - | -
    · have hmem : o ∈ (present options).filter fun o => o.1 ∉ fieldNames := by
        simp [present, ho, hn, hk]
      exact .inr (Checked.faults_eq_nil_iff.mp (List.flatMap_eq_nil_iff.mp hunknown o hmem))
    · exact .inl hn

end First

/-! ## Loose options -/

section Loose

variable {options : Fields}

/-- Empty options can be left out. -/
theorem ofOptions_filter (hd : (options.map Prod.fst).Nodup) (hr : reader ∉ options.map Prod.fst)
    {keep : String × Setting → Bool} (hk : ∀ o, o.2.isNull = false → keep o = true) :
    ofOptions (options.filter keep) = ofOptions options := by
  have hpresent : present (options.filter keep) = present options := by
    rw [present, present, List.filter_filter]
    refine List.filter_congr ?_
    intro o _
    rcases hn : o.2.isNull with - | -
    · rw [hk o hn]
      rfl
    · rfl
  have hr' : reader ∉ (options.filter keep).map Prod.fst := fun h =>
    hr ((List.filter_sublist.map Prod.fst).subset h)
  rw [ofOptions_eq (nodup_filter hd keep) hr', ofOptions_eq hd hr, hpresent]

/-- Loose options are refused if one of them is invalid, and only then. -/
theorem ofOptions_refuses_iff (hd : (options.map Prod.fst).Nodup)
    (hr : reader ∉ options.map Prod.fst) :
    (∃ f, ofOptions options = .error f ∧ f.name = "ConfigurationError") ↔
      ∃ o ∈ options, ¬Valid o.1 o.2 := by
  rw [ofOptions_eq hd hr]
  rcases h : read (present options) with a | ⟨first, more⟩
  case accepted =>
    refine ⟨fun ⟨f, hf, _⟩ => ?_, fun ⟨o, ho, hi⟩ => absurd (valid_of_read hd h o ho) hi⟩
    cases hf
  case rejected =>
    obtain ⟨field, v, -, hfirst, -⟩ := exists_firstInvalid hd h
    exact ⟨fun _ => ⟨_, hfirst.mem, hfirst.not_valid⟩, fun _ => ⟨_, rfl, rfl⟩⟩

/-- **Loose options come to attributes in normal form**, or they are refused and the first of them
that is invalid is told. Each attribute is what its option comes to, or its default. Empty options
can be left out, whichever of them, and attributes are read from their own values. -/
theorem ofOptions_normal (hd : (options.map Prod.fst).Nodup)
    (hr : reader ∉ options.map Prod.fst) :
    ((∃ field v first more, FirstInvalid options field v ∧
        coerce field v = .rejected first more ∧ first.location.head? = some field ∧
        ofOptions options =
          .error (misconfigured first.place ("Invalid bot attributes: " ++ first.fault.message))) ∨
      ∃ a, ofOptions options = .ok a ∧ (∀ o ∈ options, Valid o.1 o.2) ∧
        ∀ k ∈ fieldNames,
          Normal k (a.valueAt k) ∧ fieldAt (present options) k = .accepted (a.valueAt k)) ∧
    (∀ keep : String × Setting → Bool, (∀ o, o.2.isNull = false → keep o = true) →
      ofOptions (options.filter keep) = ofOptions options) ∧
    ∀ a, ofOptions options = .ok a → read a.toOptions = .accepted a := by
  refine ⟨?_, fun keep hk => ofOptions_filter hd hr hk, fun a _ => read_toOptions a⟩
  rw [ofOptions_eq hd hr]
  rcases h : read (present options) with a | ⟨first, more⟩
  case accepted =>
    refine .inr ⟨a, rfl, valid_of_read hd h, ?_⟩
    exact fun k hk => ⟨normal_valueAt a k, fieldAt_of_read h k hk⟩
  case rejected =>
    obtain ⟨field, v, rest, hfirst, hc⟩ := exists_firstInvalid hd h
    have hplace : first.location.head? = some field := by
      refine coerce_at field v first ?_
      rw [hc]
      exact List.mem_cons_self
    exact .inl ⟨field, v, first, rest, hfirst, hc, hplace, rfl⟩

/-- Of a name that no attribute has, a depth below one and a symbol of two characters, the symbol is
told. The empty symbol before them is not, and it can be left out. -/
theorem ofOptions_normal_order :
    let options : Fields :=
      [("colour", .int 1), ("max_chain_depth", .int 0), ("previous", .null),
        ("quote_end", .text "ab")]
    ((options.map Prod.fst).Nodup ∧ reader ∉ options.map Prod.fst) ∧
    (∃ field v first more, FirstInvalid options field v ∧
      coerce field v = .rejected first more ∧ first.location.head? = some field ∧
      ofOptions options =
        .error (misconfigured first.place ("Invalid bot attributes: " ++ first.fault.message))) ∧
    ofOptions options = .error (misconfigured "quote_end"
      ("Invalid bot attributes: Value error, " ++
        "quote_end must be exactly one character, got 'ab'")) ∧
    ofOptions (options.filter fun o => !o.2.isNull) = ofOptions options := by
  intro options
  have hd : (options.map Prod.fst).Nodup := by decide
  have hr : reader ∉ options.map Prod.fst := by decide
  have hrefused : ofOptions options = .error (misconfigured "quote_end"
      ("Invalid bot attributes: Value error, " ++
        "quote_end must be exactly one character, got 'ab'")) := by decide +kernel
  obtain ⟨hfirst | ⟨a, ha, -⟩, hfilter, -⟩ := ofOptions_normal hd hr
  · exact ⟨⟨hd, hr⟩, hfirst, hrefused, hfilter _ fun o ho => by rw [ho]; rfl⟩
  · rw [hrefused] at ha
    cases ha

end Loose

/-- **The name that options cannot have.** An option by the name that options are read by is a fault
of another kind: it is neither read nor told to be wrong, and an empty one makes a difference. -/
theorem ofOptions_reader :
    let refused : Except Fault Attributes :=
      .error (.wrongType "got multiple values for argument 'cls'")
    read [("cls", .int 1)] = .refuse "cls" .unknown ∧
      ofOptions [("cls", .int 1)] = refused ∧
      (∀ place message, refused ≠ .error (misconfigured place message)) ∧
      ofOptions [("cls", .null)] = refused ∧
      ∃ a, ofOptions [] = .ok a := by
  refine ⟨rfl, by decide, ?_, by decide, _, rfl⟩
  intro place message h
  cases h

end Attributes

end ChatCommands
