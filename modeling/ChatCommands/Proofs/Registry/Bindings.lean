import ChatCommands.Bot
import Mathlib.Data.List.Basic

/-!
# Registrations, removals and what names stand for

A registration fails before it binds anything, or binds its names one after another up to one that
is no name. What it does to the bindings is told name by name: its names stand for its command, and
all others for what they stood for before. The bindings stay proper, each name where it is found and
at most once, so that what is bound is what is found.

## Main definitions

* `CommandInfo.Unfit`: an option that no command can have
* `keysOf`: what names are kept under
* `Bindings.Proper`: each name is kept where it belongs, and at most once

## Main results

* `CommandInfo.ofOptions_error_iff`: what a registration fails by before it binds anything
* `lookUpName_bindNames`, `lookUpName_filter`: what names stand for after registrations and removals
* `Bindings.Proper.lookUpName_iff`: what is bound is found
-/

namespace ChatCommands

variable {names : Setting} {options : Fields} {info : CommandInfo} {c d : Command} {k : Scalar}
  {n : Setting} {f : Fault}

/-! ## What a registration describes -/

namespace CommandInfo

/-- The options that commands have. -/
def optionNames : List String :=
  ["description", "usage", "parameters", "permission_level", "permission_message",
    "required_permissions", "required_roles", "chain_usable", "help_available", "min_args",
    "max_args"]

/-- An option that no command can have: an unknown one, or required actions that are not several. -/
def Unfit (option : String × Setting) : Prop :=
  option.1 ∉ optionNames ∨ option.1 = "required_permissions" ∧ ∃ f, option.2.items = .error f

/-- An option changes no names. -/
theorem withOption_names {info' : CommandInfo} {option : String × Setting}
    (h : info.withOption option = .ok info') : info'.names = info.names := by
  unfold withOption at h
  dsimp only at h
  split at h
  case h_6 =>
    cases hitems : option.2.items with
    | error f => simp [hitems, Except.map] at h
    | ok actions =>
      simp only [hitems, Except.map, Except.ok.injEq] at h
      exact h ▸ rfl
  case h_12 => cases h
  all_goals exact Except.ok.inj h ▸ rfl

theorem withOption_error_iff {option : String × Setting} :
    (∃ f, info.withOption option = .error f) ↔ Unfit option := by
  unfold withOption Unfit
  dsimp only
  split
  case h_6 heq =>
    cases hitems : option.2.items <;> simp [heq, optionNames, Except.map]
  case h_12 => simp_all [optionNames]
  all_goals simp_all [optionNames]

theorem foldlM_withOption_names {info' : CommandInfo}
    (h : options.foldlM withOption info = .ok info') : info'.names = info.names := by
  induction options generalizing info with
  | nil => exact Except.ok.inj h ▸ rfl
  | cons o os ih =>
    rw [List.foldlM_cons] at h
    cases ho : info.withOption o with
    | error f => simp [ho, bind, Except.bind] at h
    | ok next =>
      simp only [ho, bind, Except.bind] at h
      exact (ih h).trans (withOption_names ho)

theorem foldlM_withOption_error_iff :
    (∃ f, options.foldlM withOption info = .error f) ↔ ∃ o ∈ options, Unfit o := by
  induction options generalizing info with
  | nil => simp [pure, Except.pure]
  | cons o os ih =>
    rw [List.foldlM_cons, List.exists_mem_cons_iff, ← @withOption_error_iff info o]
    cases ho : info.withOption o with
    | error f => simp [bind, Except.bind]
    | ok next => simpa [bind, Except.bind] using ih

/-- A registered command has the names that were given. -/
theorem readNames_of_ofOptions (h : ofOptions names options = .ok info) :
    readNames names = .ok info.names := by
  unfold ofOptions at h
  split at h
  · simp [throw, throwThe, MonadExceptOf.throw, bind, Except.bind] at h
  · cases hn : readNames names with
    | error f => simp [hn, bind, Except.bind] at h
    | ok ns =>
      cases ns with
      | nil => simp [hn, bind, Except.bind, throw, throwThe, MonadExceptOf.throw] at h
      | cons name aliases =>
        simp only [hn, bind, Except.bind] at h
        rw [foldlM_withOption_names h]
        rfl

/-- **What a registration fails by before it binds anything**: names that cannot be gone through, no
names at all, and options that no command can have. -/
theorem ofOptions_error_iff :
    (∃ f, ofOptions names options = .error f) ↔
      (∃ f, readNames names = .error f) ∨ readNames names = .ok [] ∨
        ∃ o ∈ options, Unfit o := by
  unfold ofOptions
  split
  next o hfind =>
    have hmem : o.1 ∈ reserved := by simpa using List.find?_some hfind
    have hunfit : Unfit o := by
      refine .inl ?_
      simp only [reserved, List.mem_cons, List.not_mem_nil, or_false] at hmem
      rcases hmem with ho | ho | ho <;> simp [ho, optionNames]
    refine ⟨fun _ => .inr (.inr ⟨o, List.mem_of_find?_eq_some hfind, hunfit⟩), fun _ => ?_⟩
    exact ⟨_, rfl⟩
  · cases hn : readNames names with
    | error f => simp [bind, Except.bind]
    | ok ns =>
      cases ns with
      | nil => simp [bind, Except.bind, throw, throwThe, MonadExceptOf.throw]
      | cons name aliases =>
        simpa [bind, Except.bind] using foldlM_withOption_error_iff

end CommandInfo

/-! ## Names and what they are kept under -/

/-- What names are kept under, up to the first under which nothing can be kept. -/
def keysOf : List Setting → List Scalar
  | [] => []
  | n :: ns =>
    match n.key with
    | .ok k => k :: keysOf ns
    | .error _ => []

theorem bindNames_cons_of_key (b : Bindings) (c : Command) (ns : List Setting)
    (h : n.key = .ok k) :
    (bindNames b c (n :: ns)).bindings = (bindNames (bindName b n k c) c ns).bindings := by
  rw [bindNames, h]
  dsimp only
  split <;> rfl

theorem bindNames_cons_of_error (b : Bindings) (c : Command) (ns : List Setting)
    (h : n.key = .error f) : bindNames b c (n :: ns) = ⟨b, [], some f⟩ := by
  rw [bindNames, h]

theorem exists_of_mem_keysOf {ns : List Setting} (h : k ∈ keysOf ns) :
    ∃ m ∈ ns, m.key = .ok k := by
  induction ns with
  | nil => cases h
  | cons m ns ih =>
    unfold keysOf at h
    cases hm : m.key with
    | error f => simp [hm] at h
    | ok k' =>
      rw [hm] at h
      rcases List.mem_cons.mp h with rfl | h
      · exact ⟨m, List.mem_cons_self, hm⟩
      · obtain ⟨m', hm', hk⟩ := ih h
        exact ⟨m', List.mem_cons_of_mem _ hm', hk⟩

/-- Names are bound from the first one on. -/
theorem key_mem_keysOf_cons {m : Setting} {ns : List Setting} (h : k ∈ keysOf (m :: ns)) :
    ∃ k' ∈ keysOf (m :: ns), m.key = .ok k' := by
  cases hm : m.key with
  | error f => simp [keysOf, hm] at h
  | ok k' => exact ⟨k', by simp [keysOf, hm], rfl⟩

theorem mem_keysOf_iff {ns : List Setting} (h : ∀ m ∈ ns, ∃ k, m.key = .ok k) :
    k ∈ keysOf ns ↔ ∃ m ∈ ns, m.key = .ok k := by
  induction ns with
  | nil => simp [keysOf]
  | cons m ns ih =>
    obtain ⟨k', hk'⟩ := h m List.mem_cons_self
    rw [keysOf, hk', List.exists_mem_cons_iff, ← ih fun m hm => h m (List.mem_cons_of_mem _ hm)]
    simp [hk', eq_comm]

/-- Where all names can be kept, a registration binds all of them. -/
theorem bindNames_fault (b : Bindings) (c : Command) {ns : List Setting}
    (h : ∀ m ∈ ns, ∃ k, m.key = .ok k) : (bindNames b c ns).fault = none := by
  induction ns generalizing b with
  | nil => rfl
  | cons m ns ih =>
    obtain ⟨k, hk⟩ := h m List.mem_cons_self
    have hrest := ih (bindName b m k c) fun m hm => h m (List.mem_cons_of_mem _ hm)
    rw [bindNames, hk]
    dsimp only
    split
    · exact hrest
    · exact hrest

/-- A registration changes what its names stand for, and nothing else. -/
theorem lookUpName_bindNames (b : Bindings) (c : Command) (ns : List Setting) (k : Scalar) :
    lookUpName (bindNames b c ns).bindings k =
      if k ∈ keysOf ns then some c else lookUpName b k := by
  induction ns generalizing b with
  | nil => rfl
  | cons n ns ih =>
    cases hn : n.key with
    | error f => simp [bindNames_cons_of_error b c ns hn, keysOf, hn]
    | ok k' =>
      rw [bindNames_cons_of_key b c ns hn, ih, lookUpName_bindName, keysOf, hn]
      by_cases hk : k = k' <;> simp [hk]

/-- A removal changes what its name stands for, and nothing else. -/
theorem lookUpName_filter (b : Bindings) (k k' : Scalar) :
    lookUpName (b.filter fun e => e.key ≠ k') k =
      if k = k' then none else lookUpName b k := by
  unfold lookUpName
  rw [List.find?_filter]
  split
  next hk =>
    subst hk
    rw [List.find?_eq_none.mpr (by simp)]
    rfl
  next hk =>
    congr 2
    funext e
    by_cases he : e.key = k
    · simp [he, hk]
    · simp [he]

/-- Each name is kept where it belongs, and at most once. -/
structure Bindings.Proper (b : Bindings) : Prop where
  kept : ∀ e ∈ b, e.name.key = .ok e.key
  once : (b.map (·.key)).Nodup

theorem mem_bindName {b : Bindings} {e : Binding} (h : e ∈ bindName b n k c) :
    e ∈ b ∨ e.key = k ∧ e.command = c ∧
      (e.name = n ∨ ∃ d ∈ b, d.name = e.name ∧ d.key = e.key) := by
  induction b with
  | nil =>
    simp only [bindName, List.mem_singleton] at h
    exact .inr ⟨h ▸ rfl, h ▸ rfl, .inl (h ▸ rfl)⟩
  | cons d b ih =>
    unfold bindName at h
    split at h
    next hd =>
      rcases List.mem_cons.mp h with rfl | h
      · exact .inr ⟨hd, rfl, .inr ⟨d, List.mem_cons_self, rfl, rfl⟩⟩
      · exact .inl (List.mem_cons_of_mem _ h)
    · rcases List.mem_cons.mp h with rfl | h
      · exact .inl List.mem_cons_self
      · rcases ih h with h | ⟨hk, hc, h | ⟨d', hd', h⟩⟩
        · exact .inl (List.mem_cons_of_mem _ h)
        · exact .inr ⟨hk, hc, .inl h⟩
        · exact .inr ⟨hk, hc, .inr ⟨d', List.mem_cons_of_mem _ hd', h⟩⟩

/-- Every name stands for what it stood for, or for the new command. -/
theorem mem_bindNames {b : Bindings} {ns : List Setting} {e : Binding}
    (h : e ∈ (bindNames b c ns).bindings) : e ∈ b ∨ e.command = c := by
  induction ns generalizing b with
  | nil => exact .inl h
  | cons n ns ih =>
    rcases hn : n.key with f | k
    · rw [bindNames_cons_of_error b c ns hn] at h
      exact .inl h
    · rw [bindNames_cons_of_key b c ns hn] at h
      rcases ih h with h | h
      · exact (mem_bindName h).imp_right (·.2.1)
      · exact .inr h

theorem map_key_bindName (b : Bindings) (n : Setting) (k : Scalar) (c : Command) :
    (bindName b n k c).map (·.key) =
      if k ∈ b.map (·.key) then b.map (·.key) else b.map (·.key) ++ [k] := by
  induction b with
  | nil => simp [bindName]
  | cons e b ih =>
    unfold bindName
    split
    next he => simp [he]
    next he =>
      rw [List.map_cons, ih, List.map_cons]
      simp only [List.mem_cons, Ne.symm he, false_or]
      split <;> rfl

namespace Bindings.Proper

variable {b : Bindings}

theorem bindName (h : Bindings.Proper b) (hk : n.key = .ok k) :
    Bindings.Proper (bindName b n k c) := by
  constructor
  case kept =>
    intro e he
    rcases mem_bindName he with he | ⟨hek, -, rfl | ⟨d, hd, hname, hkey⟩⟩
    · exact h.kept e he
    · rw [hek, hk]
    · rw [← hname, ← hkey, h.kept d hd]
  case once =>
    rw [map_key_bindName]
    split
    · exact h.once
    next hnew =>
      refine List.nodup_append.mpr ⟨h.once, by simp, ?_⟩
      rintro a ha b hb rfl
      exact hnew (List.mem_singleton.mp hb ▸ ha)

theorem bindNames (h : Bindings.Proper b) (ns : List Setting) :
    Bindings.Proper (bindNames b c ns).bindings := by
  induction ns generalizing b with
  | nil => exact h
  | cons n ns ih =>
    cases hn : n.key with
    | error f =>
      rw [bindNames_cons_of_error b c ns hn]
      exact h
    | ok k =>
      rw [bindNames_cons_of_key b c ns hn]
      exact ih (h.bindName hn)

theorem filter (h : Bindings.Proper b) (p : Binding → Bool) : Bindings.Proper (b.filter p) where
  kept e he := h.kept e (List.mem_of_mem_filter he)
  once := h.once.sublist (List.filter_sublist.map _)

/-- What is bound is found. -/
theorem lookUpName_iff (h : Bindings.Proper b) :
    lookUpName b k = some c ↔ ∃ e ∈ b, e.key = k ∧ e.command = c := by
  obtain ⟨-, honce⟩ := h
  induction b with
  | nil => simp [lookUpName]
  | cons e b ih =>
    rw [List.map_cons, List.nodup_cons] at honce
    have ih := ih honce.2
    unfold lookUpName at ih ⊢
    rw [List.find?_cons]
    by_cases he : e.key = k
    · -- The keys are distinct, so nothing behind `e` has this one.
      have hbehind : ¬∃ d ∈ b, d.key = k ∧ d.command = c := by
        rintro ⟨d, hd, hdk, -⟩
        exact honce.1 (List.mem_map.mpr ⟨d, hd, hdk.trans he.symm⟩)
      simp [he, hbehind]
    · simpa [he] using ih

end Bindings.Proper

/-! ## Commands without repetition -/

namespace Registry

/-- What is left keeps its order. -/
theorem distinct_sublist (cs : List Command) : (distinct cs).Sublist cs := by
  induction cs with
  | nil => exact List.Sublist.slnil
  | cons c cs ih => exact (List.filter_sublist.trans ih).cons_cons c

theorem mem_of_mem_distinct {cs : List Command} (h : c ∈ distinct cs) : c ∈ cs :=
  (distinct_sublist cs).subset h

/-- Nothing is left out but repetitions. -/
theorem exists_mem_distinct {cs : List Command} (h : c ∈ cs) :
    ∃ d ∈ distinct cs, d.registration = c.registration := by
  induction cs with
  | nil => cases h
  | cons e cs ih =>
    by_cases he : e.registration = c.registration
    · exact ⟨e, List.mem_cons_self, he⟩
    · rcases List.mem_cons.mp h with rfl | h
      · exact (he rfl).elim
      · obtain ⟨d, hd, hreg⟩ := ih h
        refine ⟨d, List.mem_cons_of_mem _ (List.mem_filter.mpr ⟨hd, ?_⟩), hreg⟩
        simpa [hreg] using Ne.symm he

theorem distinct_nodup (cs : List Command) : ((distinct cs).map (·.registration)).Nodup := by
  induction cs with
  | nil => exact List.nodup_nil
  | cons c cs ih =>
    rw [distinct, List.map_cons, List.nodup_cons]
    refine ⟨?_, ih.sublist (List.filter_sublist.map _)⟩
    intro hmem
    obtain ⟨d, hd, hreg⟩ := List.mem_map.mp hmem
    simpa [hreg] using (List.mem_filter.mp hd).2

end Registry

/-! ## Looking names up -/

namespace Registry

theorem get_of_key (r : Registry) (h : n.key = .ok k) :
    r.get n = .ok (lookUpName r.bindings k) := by
  rw [get, h]
  rfl

theorem get_of_error (r : Registry) (h : n.key = .error f) : r.get n = .error f := by
  rw [get, h]
  rfl

theorem get_eq_some_iff {r : Registry} :
    r.get n = .ok (some c) ↔ ∃ k, n.key = .ok k ∧ lookUpName r.bindings k = some c := by
  cases hn : n.key with
  | error f => simp [r.get_of_error hn]
  | ok k => simp [r.get_of_key hn]

end Registry

/-- Names that are the same are kept alike. -/
theorem Setting.key_of_same {m : Setting} (h : m.same n) (hk : n.key = .ok k) : m.key = .ok k := by
  cases hm : m.key with
  | ok k' => rw [(key_eq_key_iff hm hk).mpr h]
  | error f => cases m <;> cases n <;> simp_all [key, same, normal]

theorem Bindings.Proper.exists_name_iff {r : Registry} (h : Bindings.Proper r.bindings) :
    (∃ m ∈ r.names, m.same n) ↔ ∃ c, r.get n = .ok (some c) := by
  constructor
  · rintro ⟨m, hm, hsame⟩
    obtain ⟨e, he, rfl⟩ := List.mem_map.mp hm
    have hkey : n.key = .ok e.key :=
      Setting.key_of_same (Setting.same_equivalence.symm hsame) (h.kept e he)
    have hlook : lookUpName r.bindings e.key = some e.command :=
      h.lookUpName_iff.mpr ⟨e, he, rfl, rfl⟩
    exact ⟨e.command, Registry.get_eq_some_iff.mpr ⟨e.key, hkey, hlook⟩⟩
  · rintro ⟨c, hc⟩
    obtain ⟨k, hk, hlook⟩ := Registry.get_eq_some_iff.mp hc
    obtain ⟨e, he, rfl, -⟩ := h.lookUpName_iff.mp hlook
    exact ⟨e.name, List.mem_map.mpr ⟨e, he, rfl⟩, (Setting.key_eq_key_iff (h.kept e he) hk).mp rfl⟩

theorem Bindings.Proper.names_pairwise {r : Registry} (h : Bindings.Proper r.bindings) :
    r.names.Pairwise fun m n => ¬m.same n := by
  have honce := List.pairwise_map.mp h.once
  refine List.pairwise_map.mpr (honce.imp_of_mem fun he hd hne hsame => hne ?_)
  exact (Setting.key_eq_key_iff (h.kept _ he) (h.kept _ hd)).mpr hsame

theorem Bindings.Proper.exists_binding_iff {r : Registry} (h : Bindings.Proper r.bindings) :
    (∃ e ∈ r.bindings, e.command = c) ↔ ∃ n, r.get n = .ok (some c) := by
  constructor
  · rintro ⟨e, he, rfl⟩
    exact ⟨e.name, Registry.get_eq_some_iff.mpr
      ⟨e.key, h.kept e he, h.lookUpName_iff.mpr ⟨e, he, rfl, rfl⟩⟩⟩
  · rintro ⟨n, hn⟩
    obtain ⟨k, -, hlook⟩ := Registry.get_eq_some_iff.mp hn
    obtain ⟨e, he, -, rfl⟩ := h.lookUpName_iff.mp hlook
    exact ⟨e, he, rfl⟩

end ChatCommands
