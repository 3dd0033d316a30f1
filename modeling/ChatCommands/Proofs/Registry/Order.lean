import ChatCommands.Proofs.Registry.History

/-!
# The order of commands

Commands are listed in the order of the places of their first names, and a name has its place since
it was bound while it was free. Binding it anew leaves it there, whatever command it then stands
for. So a command is listed before another exactly if one of its names has been held longer than all
names of the other, and commands are in the order of their registrations exactly if that goes for
all that were registered one before the other. A command that takes over an old name goes before
commands that were registered earlier.

Operations bind and free names one after another. What a single such step does to the order of the
bound names is told first, and the rest is an induction over the steps.

## Main definitions

* `NameStep`, `nameSteps`: what operations do to names, one after another
* `HeldSince`: the step at which a name was bound while it was free, and since which it was not
  freed
* `HeldBefore`: one name has been held longer than another
* `Registry.Precedes`: one of the names of a command has been held longer than all names of another
* `TakesNothingOver`: no operation registers a command under a name that stands for something

## Main results

* `InOrder.step`, `InOrder.run`: steps keep bound names in the order in which they were bound
* `inOrder_administered`: names are in that order after any operations
* `bindings_pairwise`: where nothing is taken over, they are in the order of the registrations
* `commands_ordered`: which commands are listed before which
* `commands_out_of_order`: a command that is listed before one that was registered earlier
-/

namespace ChatCommands

open scoped List

variable {b : Bot} {c d : Command} {k k' : Scalar} {i j : Nat} {keys : List Scalar}

/-- A change of what a name stands for. -/
inductive NameStep where
  /-- The name is bound, to whatever command. -/
  | bind (k : Scalar)
  /-- The name is removed. -/
  | free (k : Scalar)
  deriving DecidableEq, Repr

variable {x : NameStep} {steps : List NameStep}

/-- What an operation removes. -/
def RegistryOp.freed : RegistryOp → List Scalar
  | .add _ _ _ _ => []
  | .remove n => n.key.toOption.toList

/-- What an operation does to names, one after another. -/
def RegistryOp.nameSteps (o : RegistryOp) : List NameStep :=
  o.keys.map NameStep.bind ++ o.freed.map NameStep.free

/-- What operations do to names, one after another. -/
def nameSteps (ops : List RegistryOp) : List NameStep := ops.flatMap RegistryOp.nameSteps

/-! ## Names that are held -/

/-- A name is free: whenever it was bound, it was removed afterwards. -/
def Freed (steps : List NameStep) (k : Scalar) : Prop :=
  ∀ i : Nat, steps[i]? = some (.bind k) → ∃ j : Nat, i < j ∧ steps[j]? = some (.free k)

/-- A name is held since a step: it was bound there while it was free, and not removed since. -/
structure HeldSince (steps : List NameStep) (i : Nat) (k : Scalar) : Prop where
  bound : steps[i]? = some (.bind k)
  fresh : Freed (steps.take i) k
  kept : ∀ j : Nat, i < j → steps[j]? ≠ some (.free k)

/-- One name has been held longer than another. -/
def HeldBefore (steps : List NameStep) (k k' : Scalar) : Prop :=
  ∃ i j, HeldSince steps i k ∧ HeldSince steps j k' ∧ i < j

theorem HeldSince.lt_length (h : HeldSince steps i k) : i < steps.length :=
  (List.getElem?_eq_some_iff.mp h.bound).1

/-- What is held since a step is not held since an earlier one. -/
theorem HeldSince.not_lt (hi : HeldSince steps i k) (hj : HeldSince steps j k) : ¬i < j := by
  intro hlt
  -- It was free at the later step, so it was freed after the earlier one.
  obtain ⟨l, hl, hfree⟩ := hj.fresh i (by rw [List.getElem?_take_of_lt hlt, hi.bound])
  rw [List.getElem?_take] at hfree
  split at hfree
  · exact hi.kept l hl hfree
  · cases hfree

/-- A name is held since one step only. -/
theorem HeldSince.unique (hi : HeldSince steps i k) (hj : HeldSince steps j k) : i = j :=
  Nat.le_antisymm (Nat.not_lt.mp (hj.not_lt hi)) (Nat.not_lt.mp (hi.not_lt hj))

theorem HeldBefore.asymm (h : HeldBefore steps k k') : ¬HeldBefore steps k' k := by
  rintro ⟨i', j', hi', hj', hlt'⟩
  obtain ⟨i, j, hi, hj, hlt⟩ := h
  obtain rfl := hi.unique hj'
  obtain rfl := hj.unique hi'
  exact Nat.lt_asymm hlt hlt'

/-! ### One more step -/

theorem getElem?_concat_eq_some_iff {y : NameStep} :
    (steps ++ [x])[i]? = some y ↔ steps[i]? = some y ∨ i = steps.length ∧ x = y := by
  rcases Nat.lt_trichotomy i steps.length with hi | rfl | hi
  · simp [List.getElem?_append_left hi, Nat.ne_of_lt hi]
  · simp
  · simp [List.getElem?_append_right (Nat.le_of_lt hi), Nat.ne_of_gt hi, Nat.le_of_lt hi,
      Nat.sub_ne_zero_of_lt hi]

theorem le_length_of_concat {y : NameStep} (h : (steps ++ [x])[i]? = some y) :
    i ≤ steps.length := by
  have hlt := (List.getElem?_eq_some_iff.mp h).1
  rw [List.length_append, List.length_singleton] at hlt
  exact Nat.le_of_lt_succ hlt

/-- A name is free once it is removed, and stays so until it is bound. -/
theorem freed_concat_iff :
    Freed (steps ++ [x]) k ↔ x = .free k ∨ x ≠ .bind k ∧ Freed steps k := by
  constructor
  · intro h
    by_cases hx : x = .free k
    · exact .inl hx
    refine .inr ⟨?_, fun i hi => ?_⟩
    · rintro rfl
      obtain ⟨j, hj, hfree⟩ := h steps.length (getElem?_concat_eq_some_iff.mpr (.inr ⟨rfl, rfl⟩))
      exact absurd hj (Nat.not_lt.mpr (le_length_of_concat hfree))
    · obtain ⟨j, hj, hfree⟩ := h i (getElem?_concat_eq_some_iff.mpr (.inl hi))
      rcases getElem?_concat_eq_some_iff.mp hfree with hfree | ⟨-, hfree⟩
      · exact ⟨j, hj, hfree⟩
      · exact (hx hfree).elim
  · rintro (rfl | ⟨hx, h⟩) i hi
    · rcases getElem?_concat_eq_some_iff.mp hi with hi | ⟨-, hbind⟩
      · exact ⟨steps.length, (List.getElem?_eq_some_iff.mp hi).1,
          getElem?_concat_eq_some_iff.mpr (.inr ⟨rfl, rfl⟩)⟩
      · cases hbind
    · rcases getElem?_concat_eq_some_iff.mp hi with hi | ⟨-, hbind⟩
      · obtain ⟨j, hj, hfree⟩ := h i hi
        exact ⟨j, hj, getElem?_concat_eq_some_iff.mpr (.inl hfree)⟩
      · exact (hx hbind).elim

/-- A name is held since the last step if that bound it and it was free, and goes on to be held if
the last step does not free it. -/
theorem heldSince_concat_iff :
    HeldSince (steps ++ [x]) i k ↔
      i = steps.length ∧ x = .bind k ∧ Freed steps k ∨ HeldSince steps i k ∧ x ≠ .free k := by
  constructor
  · rintro ⟨hbound, hfresh, hkept⟩
    -- An earlier step is told by what was before it, which the last one does not change.
    rcases getElem?_concat_eq_some_iff.mp hbound with hb | ⟨rfl, rfl⟩
    · have hlt := (List.getElem?_eq_some_iff.mp hb).1
      rw [List.take_append_of_le_length (Nat.le_of_lt hlt)] at hfresh
      refine .inr ⟨⟨hb, hfresh, fun j hij hj => ?_⟩, fun hx => ?_⟩
      · exact hkept j hij (getElem?_concat_eq_some_iff.mpr (.inl hj))
      · exact hkept _ hlt (getElem?_concat_eq_some_iff.mpr (.inr ⟨rfl, hx⟩))
    · rw [List.take_left] at hfresh
      exact .inl ⟨rfl, rfl, hfresh⟩
  · rintro (⟨rfl, rfl, hfresh⟩ | ⟨h, hx⟩)
    · refine ⟨by simp, by rwa [List.take_left], fun j hij hj => ?_⟩
      exact absurd hij (Nat.not_lt.mpr (le_length_of_concat hj))
    · refine ⟨getElem?_concat_eq_some_iff.mpr (.inl h.bound), ?_, fun j hij hj => ?_⟩
      · rw [List.take_append_of_le_length (Nat.le_of_lt h.lt_length)]
        exact h.fresh
      · rcases getElem?_concat_eq_some_iff.mp hj with hj | ⟨-, hj⟩
        · exact h.kept j hij hj
        · exact hx hj

/-- What is held is not free. -/
theorem exists_heldSince_iff : (∃ i, HeldSince steps i k) ↔ ¬Freed steps k := by
  -- Induction on the steps from the last one on, which binds the name, frees it, or does neither.
  induction steps using List.reverseRecOn with
  | nil =>
    refine ⟨fun ⟨i, hi⟩ => absurd hi.lt_length (Nat.not_lt_zero i), fun h => (h ?_).elim⟩
    intro i hi
    cases hi
  | append_singleton steps x ih =>
    simp only [heldSince_concat_iff, freed_concat_iff, exists_or, exists_eq_left,
      exists_and_right, ih]
    by_cases hx : x = .free k
    · simp [hx]
    · by_cases hfree : Freed steps k <;> simp [hx, hfree]

theorem HeldBefore.concat (h : HeldBefore steps k k') (hk : x ≠ .free k) (hk' : x ≠ .free k') :
    HeldBefore (steps ++ [x]) k k' := by
  obtain ⟨i, j, hi, hj, hlt⟩ := h
  exact ⟨i, j, heldSince_concat_iff.mpr (.inr ⟨hi, hk⟩), heldSince_concat_iff.mpr (.inr ⟨hj, hk'⟩),
    hlt⟩

/-! ## Bound names in order -/

/-- What a step does to the bound names: a name keeps its place as it is bound anew, and loses it as
it is removed. -/
def NameStep.on (keys : List Scalar) : NameStep → List Scalar
  | .bind k => if k ∈ keys then keys else keys ++ [k]
  | .free k => keys.filter fun k' => k' ≠ k

/-- The bound names are those that are held, in the order in which they were bound. -/
structure InOrder (keys : List Scalar) (steps : List NameStep) : Prop where
  held : ∀ k, k ∈ keys ↔ ∃ i, HeldSince steps i k
  ordered : keys.Pairwise (HeldBefore steps)

/-- A name that is bound while it is free goes behind all others. -/
theorem InOrder.bind_new (h : InOrder keys steps) (hk : k ∉ keys) :
    InOrder (keys ++ [k]) (steps ++ [.bind k]) := by
  -- What is not among the bound names is free, so it is held since this step.
  have hfree : Freed steps k := by
    by_contra hfree
    exact hk ((h.held k).mpr (exists_heldSince_iff.mpr hfree))
  constructor
  case held =>
    intro k'
    rw [List.mem_append, List.mem_singleton, h.held, exists_heldSince_iff, exists_heldSince_iff,
      freed_concat_iff]
    by_cases hk' : k' = k
    · simp [hk']
    · simp [hk', Ne.symm hk']
  case ordered =>
    rw [List.pairwise_append]
    refine ⟨h.ordered.imp fun hlt => hlt.concat nofun nofun, List.pairwise_singleton _ _, ?_⟩
    intro k₁ hk₁ k₂ hk₂
    obtain rfl := List.mem_singleton.mp hk₂
    obtain ⟨i, hi⟩ := (h.held k₁).mp hk₁
    refine ⟨i, steps.length, ?_, ?_, hi.lt_length⟩
    · exact heldSince_concat_iff.mpr (.inr ⟨hi, nofun⟩)
    · exact heldSince_concat_iff.mpr (.inl ⟨rfl, rfl, hfree⟩)

/-- A name that is bound anew stays where it is. -/
theorem InOrder.bind_again (h : InOrder keys steps) (hk : k ∈ keys) :
    InOrder keys (steps ++ [.bind k]) := by
  constructor
  case held =>
    intro k'
    rw [h.held, exists_heldSince_iff, exists_heldSince_iff, freed_concat_iff]
    by_cases hk' : k' = k
    · subst hk'
      simpa using exists_heldSince_iff.mp ((h.held k').mp hk)
    · simp [Ne.symm hk']
  case ordered => exact h.ordered.imp fun hlt => hlt.concat nofun nofun

/-- The names that are left keep their order as one is removed. -/
theorem InOrder.free (h : InOrder keys steps) :
    InOrder (keys.filter fun k' => k' ≠ k) (steps ++ [.free k]) := by
  constructor
  case held =>
    intro k'
    rw [List.mem_filter, h.held, exists_heldSince_iff, exists_heldSince_iff, freed_concat_iff]
    by_cases hk' : k' = k
    · simp [hk']
    · simp [hk', Ne.symm hk']
  case ordered =>
    have hleft {k' : Scalar} (hk' : k' ∈ keys.filter fun k' => k' ≠ k) :
        NameStep.free k ≠ .free k' := by
      rintro ⟨⟩
      simpa using (List.mem_filter.mp hk').2
    exact (h.ordered.filter _).imp_of_mem fun hk₁ hk₂ hlt => hlt.concat (hleft hk₁) (hleft hk₂)

/-- **A step keeps bound names in order.** -/
theorem InOrder.step (h : InOrder keys steps) (x : NameStep) :
    InOrder (x.on keys) (steps ++ [x]) := by
  cases x with
  | bind k =>
    unfold NameStep.on
    dsimp only
    split
    next hk => exact h.bind_again hk
    next hk => exact h.bind_new hk
  | free k => exact h.free

/-- **Steps keep bound names in order.** -/
theorem InOrder.run (h : InOrder keys steps) (xs : List NameStep) :
    InOrder (xs.foldl NameStep.on keys) (steps ++ xs) := by
  induction xs generalizing keys steps with
  | nil => simpa using h
  | cons x xs ih =>
    have hnext := ih (h.step x)
    rwa [List.append_assoc] at hnext

/-! ### Operations as steps -/

theorem map_key_bindNames (b : Bindings) (c : Command) (ns : List Setting) :
    (bindNames b c ns).bindings.map (·.key) =
      ((keysOf ns).map NameStep.bind).foldl NameStep.on (b.map (·.key)) := by
  induction ns generalizing b with
  | nil => rfl
  | cons n ns ih =>
    cases hn : n.key with
    | error f =>
      rw [bindNames_cons_of_error b c ns hn, keysOf, hn]
      rfl
    | ok k =>
      rw [bindNames_cons_of_key b c ns hn, ih, map_key_bindName, keysOf, hn]
      rfl

theorem map_key_filter (b : Bindings) (k : Scalar) :
    (b.filter fun e => e.key ≠ k).map (·.key) = (NameStep.free k).on (b.map (·.key)) := by
  rw [NameStep.on, List.filter_map]
  rfl

/-- An operation does to the bound names what its steps do. -/
theorem RegistryOp.map_key_on (o : RegistryOp) (b : Bot) :
    (o.on b).core.registry.bindings.map (·.key) =
      o.nameSteps.foldl NameStep.on (b.core.registry.bindings.map (·.key)) := by
  cases o with
  | add names options manner handler =>
    rw [nameSteps, freed, List.map_nil, List.append_nil, on]
    cases hinfo : CommandInfo.ofOptions names options with
    | error f =>
      rw [Bot.register_of_error hinfo, keys, command?_of_error hinfo]
      rfl
    | ok info =>
      rw [Bot.register_registry hinfo, keys_add hinfo]
      exact map_key_bindNames _ _ info.names
  | remove n =>
    rw [nameSteps, freed, on]
    cases hn : n.key with
    | error f =>
      rw [Bot.remove_of_error hn]
      rfl
    | ok k =>
      rw [Bot.remove_of_key hn]
      exact map_key_filter _ k

/-- **Names are in the order in which they were bound**, after any operations. -/
theorem inOrder_administered (h : b.core.registry = {}) (ops : List RegistryOp) :
    InOrder ((b.administered ops).core.registry.bindings.map (·.key)) (nameSteps ops) := by
  induction ops using List.reverseRecOn with
  | nil =>
    rw [Bot.administered, List.foldl_nil, h]
    refine ⟨fun k => ⟨fun hk => absurd hk List.not_mem_nil, fun hheld => ?_⟩, List.Pairwise.nil⟩
    obtain ⟨i, hi⟩ := hheld
    exact absurd hi.lt_length (Nat.not_lt_zero i)
  | append_singleton ops o ih =>
    have hsteps : nameSteps (ops ++ [o]) = nameSteps ops ++ o.nameSteps := by simp [nameSteps]
    rw [Bot.administered_concat, o.map_key_on, hsteps]
    exact ih.run o.nameSteps

/-! ## Commands in order -/

namespace Registry

/-- One of the names of a command has been held longer than all names of another. -/
def Precedes (r : Registry) (steps : List NameStep) (c d : Command) : Prop :=
  ∃ k, lookUpName r.bindings k = some c ∧
    ∀ k', lookUpName r.bindings k' = some d → HeldBefore steps k k'

theorem Precedes.asymm {r : Registry} (h : r.Precedes steps c d) : ¬r.Precedes steps d c := by
  rintro ⟨k', hk', hbefore'⟩
  obtain ⟨k, hk, hbefore⟩ := h
  exact (hbefore k' hk').asymm (hbefore' k hk)

/-- Of bindings in an order, commands come in the order of their first names. -/
theorem distinct_pairwise {R : Scalar → Scalar → Prop} {b : Bindings}
    (h : b.Pairwise fun e e' => R e.key e'.key) :
    (distinct (b.map (·.command))).Pairwise fun c d =>
      ∃ e ∈ b, e.command = c ∧ ∀ e' ∈ b, e'.command = d → R e.key e'.key := by
  induction b with
  | nil => exact List.Pairwise.nil
  | cons e b ih =>
    obtain ⟨hfirst, hrest⟩ := List.pairwise_cons.mp h
    -- Behind `e` there are no more commands with its number, so that none of them is bound there.
    have hother {d : Command} {cs : List Command}
        (hd : d ∈ cs.filter fun d => d.registration ≠ e.command.registration) : e.command ≠ d := by
      rintro rfl
      simpa using (List.mem_filter.mp hd).2
    rw [List.map_cons, distinct, List.pairwise_cons]
    constructor
    · intro d hd
      refine ⟨e, List.mem_cons_self, rfl, fun e' he' hcommand => ?_⟩
      rcases List.mem_cons.mp he' with rfl | he'
      · exact (hother hd hcommand).elim
      · exact hfirst e' he'
    · refine ((ih hrest).filter _).imp_of_mem fun hc hd hbefore => ?_
      obtain ⟨e₁, he₁, hcommand₁, hbefore⟩ := hbefore
      refine ⟨e₁, List.mem_cons_of_mem e he₁, hcommand₁, fun e' he' hcommand => ?_⟩
      rcases List.mem_cons.mp he' with rfl | he'
      · exact (hother hd hcommand).elim
      · exact hbefore e' he' hcommand

end Registry

/-- Commands precede those that are listed behind them. -/
theorem commands_pairwise (h : b.core.registry = {}) (ops : List RegistryOp) :
    (b.administered ops).core.registry.commands.Pairwise
      ((b.administered ops).core.registry.Precedes (nameSteps ops)) := by
  have hproper := proper_administered h ops
  have hordered := List.pairwise_map.mp (inOrder_administered h ops).ordered
  -- What is bound is found, so that bindings can be told by the keys that are looked up.
  refine (Registry.distinct_pairwise hordered).imp fun ⟨e, he, hcommand, hbefore⟩ => ?_
  refine ⟨e.key, hproper.lookUpName_iff.mpr ⟨e, he, rfl, hcommand⟩, fun k' hk' => ?_⟩
  obtain ⟨e', he', rfl, hcommand'⟩ := hproper.lookUpName_iff.mp hk'
  exact hbefore e' he' hcommand'

/-! ### Operations that take nothing over -/

/-- An operation takes over a name: it lists one that stands for something. -/
def RegistryOp.TakesOver (o : RegistryOp) (b : Bot) : Prop :=
  ∃ k ∈ o.keys, ∃ c, lookUpName b.core.registry.bindings k = some c

/-- No operation takes over a name, at its turn. -/
def TakesNothingOver (b : Bot) (ops : List RegistryOp) : Prop :=
  ∀ (i : Nat) (o : RegistryOp), ops[i]? = some o → ¬o.TakesOver (b.administered (ops.take i))

theorem TakesNothingOver.of_concat {ops : List RegistryOp} {o : RegistryOp}
    (h : TakesNothingOver b (ops ++ [o])) :
    TakesNothingOver b ops ∧ ¬o.TakesOver (b.administered ops) := by
  constructor
  · intro i o' hi
    have hlt := (List.getElem?_eq_some_iff.mp hi).1
    have hnew := h i o' (by rw [List.getElem?_append_left hlt, hi])
    rwa [List.take_append_of_le_length (Nat.le_of_lt hlt)] at hnew
  · have hlast := h ops.length o (by simp)
    rwa [List.take_left] at hlast

theorem bindName_of_free {b : Bindings} {n : Setting} (h : lookUpName b k = none) :
    bindName b n k c = b ++ [⟨n, k, c⟩] := by
  induction b with
  | nil => rfl
  | cons e b ih =>
    rw [lookUpName, Option.map_eq_none_iff, List.find?_cons] at h
    by_cases he : e.key = k
    · simp [he] at h
    · rw [bindName, if_neg he, List.cons_append, ih (by simpa [lookUpName, he] using h)]

/-- Nothing changes as a name is bound to what it stands for. -/
theorem bindName_of_bound {b : Bindings} {n : Setting} (h : lookUpName b k = some c) :
    bindName b n k c = b := by
  induction b with
  | nil => cases h
  | cons e b ih =>
    rw [lookUpName, List.find?_cons] at h
    by_cases he : e.key = k
    · obtain rfl : e.command = c := by simpa [he] using h
      rw [bindName, if_pos he]
    · rw [bindName, if_neg he, ih (by simpa [lookUpName, he] using h)]

/-- A registration that takes nothing over goes behind all that is bound. A name that it lists twice
is its own the second time. -/
theorem exists_bindNames_eq {b : Bindings} {ns : List Setting}
    (h : ∀ k ∈ keysOf ns, lookUpName b k = none ∨ lookUpName b k = some c) :
    ∃ new, (bindNames b c ns).bindings = b ++ new ∧ ∀ e ∈ new, e.command = c := by
  induction ns generalizing b with
  | nil => exact ⟨[], (List.append_nil b).symm, nofun⟩
  | cons n ns ih =>
    cases hn : n.key with
    | error f =>
      rw [bindNames_cons_of_error b c ns hn]
      exact ⟨[], (List.append_nil b).symm, nofun⟩
    | ok k =>
      rw [keysOf, hn] at h
      rw [bindNames_cons_of_key b c ns hn]
      -- The name stands for the command now, which is all that the names behind it may find.
      have hrest : ∀ k' ∈ keysOf ns, lookUpName (bindName b n k c) k' = none ∨
          lookUpName (bindName b n k c) k' = some c := by
        intro k' hk'
        rw [lookUpName_bindName]
        split
        · exact .inr rfl
        · exact h k' (List.mem_cons_of_mem k hk')
      obtain ⟨new, hnew, hcommand⟩ := ih hrest
      rcases h k List.mem_cons_self with hfree | hbound
      · refine ⟨⟨n, k, c⟩ :: new, ?_, List.forall_mem_cons.mpr ⟨rfl, hcommand⟩⟩
        rw [hnew, bindName_of_free hfree, List.append_assoc, List.singleton_append]
      · exact ⟨new, by rw [hnew, bindName_of_bound hbound], hcommand⟩

/-- An operation that takes nothing over keeps names in the order in which their commands were
registered. -/
theorem RegistryOp.pairwise_on (o : RegistryOp) (hnew : ¬o.TakesOver b)
    (hlt : ∀ e ∈ b.core.registry.bindings, e.command.registration < b.core.registry.registrations)
    (h : b.core.registry.bindings.Pairwise fun e e' =>
      e.command.registration ≤ e'.command.registration) :
    (o.on b).core.registry.bindings.Pairwise fun e e' =>
      e.command.registration ≤ e'.command.registration := by
  cases o with
  | add names options manner handler =>
    rw [on]
    cases hinfo : CommandInfo.ofOptions names options with
    | error f =>
      rw [Bot.register_of_error hinfo]
      exact h
    | ok info =>
      rw [TakesOver, keys_add hinfo] at hnew
      have hfree : ∀ k ∈ keysOf info.names, lookUpName b.core.registry.bindings k = none := by
        intro k hk
        apply Option.eq_none_iff_forall_ne_some.mpr
        exact fun c hc => hnew ⟨k, hk, c, hc⟩
      rw [Bot.register_registry hinfo, Registry.register, Registry.rebinding]
      -- The new names are behind the old ones, and no number is as high as that of their command.
      obtain ⟨new, hbindings, hcommand⟩ := exists_bindNames_eq fun k hk => .inl (hfree k hk)
      rw [hbindings, List.pairwise_append]
      refine ⟨h, List.pairwise_of_forall_mem_list fun e he e' he' => ?_, fun e he e' he' => ?_⟩
      · have hsame : e.command = e'.command := (hcommand e he).trans (hcommand e' he').symm
        exact Nat.le_of_eq (congrArg Command.registration hsame)
      · rw [hcommand e' he']
        exact Nat.le_of_lt (hlt e he)
  | remove n =>
    rw [on]
    cases hn : n.key with
    | error f =>
      rw [Bot.remove_of_error hn]
      exact h
    | ok k =>
      rw [Bot.remove_of_key hn]
      exact h.filter _

/-- Whatever is bound was registered. -/
theorem registration_lt (h : b.core.registry = {}) {ops : List RegistryOp} {e : Binding}
    (he : e ∈ (b.administered ops).core.registry.bindings) :
    e.command.registration < (b.administered ops).core.registry.registrations := by
  obtain ⟨n, hn⟩ := (proper_administered h ops).exists_binding_iff.mp ⟨e, he, rfl⟩
  obtain ⟨i, hi⟩ := (get_administered_iff h ops).mp hn
  have hlt := madeBy_take_lt hi.made hi.lt_length
  rwa [List.take_length, ← registration_of_madeAt hi.made, ← registrations_administered h] at hlt

/-- Where nothing is taken over, names stand in the order in which their commands were
registered. -/
theorem bindings_pairwise (h : b.core.registry = {}) (ops : List RegistryOp)
    (hnew : TakesNothingOver b ops) :
    (b.administered ops).core.registry.bindings.Pairwise fun e e' =>
      e.command.registration ≤ e'.command.registration := by
  induction ops using List.reverseRecOn with
  | nil =>
    rw [Bot.administered, List.foldl_nil, h]
    exact List.Pairwise.nil
  | append_singleton ops o ih =>
    obtain ⟨hnew, hlast⟩ := hnew.of_concat
    rw [Bot.administered_concat]
    exact o.pairwise_on hlast (fun e he => registration_lt h he) (ih hnew)

/-! ### What is listed before what -/

/-- Of two things in a list, one stands before the other. -/
theorem pair_sublist_or {α : Type} {a b : α} {l : List α} (ha : a ∈ l) (hb : b ∈ l) (hne : a ≠ b) :
    [a, b] <+ l ∨ [b, a] <+ l := by
  -- What is not `a` itself is in front of it or behind it.
  obtain ⟨s, t, rfl⟩ := List.append_of_mem ha
  rcases List.mem_append.mp hb with hb | hb
  · apply Or.inr
    exact (List.singleton_sublist.mpr hb).append (List.singleton_sublist.mpr List.mem_cons_self)
  · apply Or.inl
    have hb : b ∈ t := (List.mem_cons.mp hb).resolve_left hne.symm
    exact ((List.singleton_sublist.mpr hb).cons_cons a).trans (List.sublist_append_right s _)

/-- In a list that is in an order, what stands before what is told by the order. -/
theorem pair_sublist_iff {α : Type} {R : α → α → Prop} {a b : α} {l : List α} (h : l.Pairwise R)
    (hasymm : R a b → ¬R b a) (ha : a ∈ l) (hb : b ∈ l) (hne : a ≠ b) : [a, b] <+ l ↔ R a b := by
  have hpair {a b : α} (hab : [a, b] <+ l) : R a b := List.pairwise_iff_forall_sublist.mp h hab
  refine ⟨hpair, fun hab => ?_⟩
  apply (pair_sublist_or ha hb hne).resolve_right
  exact fun hba => hasymm hab (hpair hba)

/-- **Which commands are listed before which**, after any operations of a bot whose registry was
empty before them. The commands that names stand for are listed, each once; one is listed before
another exactly if one of its names has been held longer than all names of the other; and they are
in the order of their registrations exactly if every command that was registered before another has
such a name, as is the case where no registration takes over a name that stands for something. -/
theorem commands_ordered (h : b.core.registry = {}) (ops : List RegistryOp) :
    let r := (b.administered ops).core.registry
    (∀ c, c ∈ r.commands ↔ ∃ n, r.get n = .ok (some c)) ∧
      (r.commands.map (·.registration)).Nodup ∧
      (∀ c ∈ r.commands, ∀ d ∈ r.commands, c.registration ≠ d.registration →
        ([c, d] <+ r.commands ↔ r.Precedes (nameSteps ops) c d)) ∧
      (r.commands.Pairwise (fun c d => c.registration < d.registration) ↔
        ∀ c ∈ r.commands, ∀ d ∈ r.commands, c.registration < d.registration →
          r.Precedes (nameSteps ops) c d) ∧
      (TakesNothingOver b ops →
        r.commands.Pairwise fun c d => c.registration < d.registration) := by
  intro r
  have hpairwise : r.commands.Pairwise (r.Precedes (nameSteps ops)) := commands_pairwise h ops
  have hnodup : (r.commands.map (·.registration)).Nodup := Registry.distinct_nodup _
  have hlisted : ∀ c ∈ r.commands, ∀ d ∈ r.commands, c.registration ≠ d.registration →
      ([c, d] <+ r.commands ↔ r.Precedes (nameSteps ops) c d) := by
    intro c hc d hd hne
    apply pair_sublist_iff hpairwise Registry.Precedes.asymm hc hd
    rintro rfl
    exact hne rfl
  have hne : r.commands.Pairwise fun c d => c.registration ≠ d.registration :=
    List.pairwise_map.mp hnodup
  refine ⟨fun c => mem_commands_administered h ops, hnodup, hlisted,
    ⟨fun hsorted => ?_, fun hall => ?_⟩, fun hnew => ?_⟩
  · intro c hc d hd hlt
    apply (hlisted c hc d hd (Nat.ne_of_lt hlt)).mp
    apply (pair_sublist_iff hsorted Nat.lt_asymm hc hd ?_).mpr hlt
    rintro rfl
    exact Nat.lt_irrefl _ hlt
  · -- What is listed behind a command does not precede it, so it was not registered before it.
    refine (hpairwise.and hne).imp_of_mem fun hc hd hboth => ?_
    obtain ⟨hprecedes, hne⟩ := hboth
    apply Nat.lt_of_le_of_ne (Nat.not_lt.mp fun hlt => ?_) hne
    exact hprecedes.asymm (hall _ hd _ hc hlt)
  · have hbound : (r.bindings.map (·.command)).Pairwise
        fun c d => c.registration ≤ d.registration :=
      List.pairwise_map.mpr (bindings_pairwise h ops hnew)
    have hle := hbound.sublist (Registry.distinct_sublist _)
    refine (hle.and hne).imp fun hboth => ?_
    exact Nat.lt_of_le_of_ne hboth.1 hboth.2

/-- A command is replaced under its alias after another one was registered, and its own name is
removed and bound anew. The alias has been held for the longest time then. -/
theorem commands_ordered_moved :
    ∃ (b : Bot) (ops : List RegistryOp), b.core.registry = {} ∧
      (let r := (b.administered ops).core.registry
      (∀ c, c ∈ r.commands ↔ ∃ n, r.get n = .ok (some c)) ∧
        (r.commands.map (·.registration)).Nodup ∧
        (∀ c ∈ r.commands, ∀ d ∈ r.commands, c.registration ≠ d.registration →
          ([c, d] <+ r.commands ↔ r.Precedes (nameSteps ops) c d)) ∧
        (r.commands.Pairwise (fun c d => c.registration < d.registration) ↔
          ∀ c ∈ r.commands, ∀ d ∈ r.commands, c.registration < d.registration →
            r.Precedes (nameSteps ops) c d) ∧
        (TakesNothingOver b ops →
          r.commands.Pairwise fun c d => c.registration < d.registration)) ∧
      (b.administered ops).core.registry.names = ["z", "y", "x"] ∧
      (b.administered ops).core.registry.commands.map (·.registration) = [2, 1, 3] := by
  let b : Bot := .build (.fixed .null [] [] []) (.literal "!") { helpNames := .many [] } .null
  let answers : Handler := fun _ _ => pure (.text "a")
  let ops : List RegistryOp :=
    [.add (.list ["x", "z"]) [] .inline answers, .add "y" [] .thread answers,
      .add "z" [] .inline answers, .remove "x", .add "x" [] .inline answers]
  have h : b.core.registry = {} := rfl
  exact ⟨b, ops, h, commands_ordered h ops, by decide +kernel, by decide +kernel⟩

/-- **A command is listed before one that was registered earlier**, as it took over the name of one
that was registered before both. -/
theorem commands_out_of_order :
    ∃ (b : Bot) (ops : List RegistryOp), b.core.registry = {} ∧
      (b.administered ops).core.registry.commands.map (·.names) = [[.text "a"], [.text "b"]] ∧
      (b.administered ops).core.registry.commands.map (·.registration) = [2, 1] ∧
      ¬(b.administered ops).core.registry.commands.Pairwise
        fun c d => c.registration < d.registration := by
  let b : Bot := .build (.fixed .null [] [] []) (.literal "!") { helpNames := .many [] } .null
  let answers : Handler := fun _ _ => pure (.text "x")
  let ops : List RegistryOp :=
    [.add "a" [] .inline answers, .add "b" [] .inline answers, .add "a" [] .inline answers]
  exact ⟨b, ops, rfl, by decide +kernel, by decide +kernel, by decide +kernel⟩

end ChatCommands
