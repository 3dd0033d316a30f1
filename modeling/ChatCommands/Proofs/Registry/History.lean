import ChatCommands.Proofs.Registry.Bindings
import Mathlib.Data.List.Induction

/-!
# The registry after any registrations and removals

A registry is changed name by name, and a command may lose all its names but one, be bound under
its own name to something else, or be forgotten. What every name stands for can still be told from
the operations alone: the last registration under a name counts, unless the name was removed after
it. Every registration makes a command of its own, known by how many there were before.

All of it comes from what one operation does to one name, and an induction over the operations.

## Main definitions

* `RegistryOp`: a registration or a removal
* `Bot.administered`: the bot after operations
* `madeAt`: the command that the operation in a place makes
* `Counts`: the operation in a place made what a name stands for
* `Bot.Recounts`: what is found of a bot after operations

## Main results

* `get_administered_iff`: what a name stands for, from the operations
* `registry_recounts`: names, commands and failures of a registry after any operations
-/

namespace ChatCommands

variable {names : Setting} {options : Fields} {info : CommandInfo} {c d : Command} {k : Scalar}
  {n : Setting} {f : Fault}

/-! ## Operations -/

/-- A change of the registry from outside: a registration, of a handler that is given at once or put
behind it, or a removal. -/
inductive RegistryOp where
  | add (names : Setting) (options : Fields) (manner : Manner) (handler : Handler)
  | remove (name : Setting)

namespace RegistryOp

/-- Makes the change. One that fails is over with that. -/
def on (b : Bot) : RegistryOp → Bot
  | .add names options manner handler => (b.register names options manner handler).1
  | .remove name => (b.remove name).1

/-- The command that the operation makes, if it makes one and comes behind `n` registrations. -/
def command? (n : Nat) : RegistryOp → Option Command
  | .add names options manner handler =>
    (CommandInfo.ofOptions names options).toOption.map fun info =>
      { info with registration := n, manner := manner, handler := handler }
  | .remove _ => none

/-- Whether the operation makes a command. -/
def makes (o : RegistryOp) : Bool := (o.command? 0).isSome

/-- What the operation binds names under: those it lists, up to one that is no name. -/
def keys (o : RegistryOp) : List Scalar :=
  ((o.command? 0).map fun c => keysOf c.names).getD []

/-- The operation registers a command under a name. -/
def Lists (o : RegistryOp) (n : Setting) : Prop := ∃ k ∈ o.keys, n.key = .ok k

/-- The operation removes a name. -/
def Removes (o : RegistryOp) (n : Setting) : Prop := ∃ m, o = .remove m ∧ m.same n

end RegistryOp

/-- How many commands operations make. -/
def madeBy (ops : List RegistryOp) : Nat := ops.countP RegistryOp.makes

/-- The command that the operation in a place makes. -/
def madeAt (ops : List RegistryOp) (i : Nat) : Option Command :=
  ops[i]?.bind fun o => o.command? (madeBy (ops.take i))

/-- The operation in a place made a command that a name stands for: it listed the name, and no later
operation listed or removed it. -/
structure Counts (ops : List RegistryOp) (i : Nat) (n : Setting) (c : Command) : Prop where
  made : madeAt ops i = some c
  listed : ∃ o, ops[i]? = some o ∧ o.Lists n
  last : ∀ j o, i < j → ops[j]? = some o → ¬o.Lists n ∧ ¬o.Removes n

/-- The bot after operations. -/
def Bot.administered (b : Bot) (ops : List RegistryOp) : Bot := ops.foldl RegistryOp.on b

variable {b : Bot} {o : RegistryOp} {ops : List RegistryOp} {i j : Nat}

@[simp] theorem Bot.administered_concat (b : Bot) (ops : List RegistryOp) (o : RegistryOp) :
    b.administered (ops ++ [o]) = o.on (b.administered ops) := by
  simp [Bot.administered]

theorem madeBy_concat (ops : List RegistryOp) (o : RegistryOp) :
    madeBy (ops ++ [o]) = madeBy ops + if o.makes then 1 else 0 := by
  rw [madeBy, madeBy, List.countP_append, List.countP_singleton]

/-! ### What one operation does -/

namespace RegistryOp

theorem command?_add (h : CommandInfo.ofOptions names options = .ok info) (n : Nat)
    (manner : Manner) (handler : Handler) :
    (RegistryOp.add names options manner handler).command? n =
      some { info with registration := n, manner := manner, handler := handler } := by
  rw [command?, h]
  rfl

theorem keys_add (h : CommandInfo.ofOptions names options = .ok info) (manner : Manner)
    (handler : Handler) :
    (RegistryOp.add names options manner handler).keys = keysOf info.names := by
  rw [keys, command?_add h]
  rfl

theorem command?_of_error (h : CommandInfo.ofOptions names options = .error f) (n : Nat)
    (manner : Manner) (handler : Handler) :
    (RegistryOp.add names options manner handler).command? n = none := by
  rw [command?, h]
  rfl

theorem command?_isSome (o : RegistryOp) (n : Nat) : (o.command? n).isSome = o.makes := by
  cases o with
  | add names options manner handler => simp [makes, command?]
  | remove name => rfl

theorem keys_of_command? {n : Nat} (h : o.command? n = some c) : o.keys = keysOf c.names := by
  cases o with
  | add names options manner handler =>
    obtain ⟨info, hinfo, rfl⟩ := Option.map_eq_some_iff.mp h
    rw [keys, command?, hinfo]
    rfl
  | remove name => cases h

theorem registration_of_command? {n : Nat} (h : o.command? n = some c) : c.registration = n := by
  cases o with
  | add names options manner handler =>
    obtain ⟨info, -, rfl⟩ := Option.map_eq_some_iff.mp h
    rfl
  | remove name => cases h

end RegistryOp

namespace Bot

theorem registerInfo_registry (b : Bot) (info : CommandInfo) (manner : Manner)
    (handler : Handler) :
    (b.registerInfo info manner handler).1.core.registry =
      b.core.registry.register info manner handler := by
  unfold registerInfo
  dsimp only
  split <;> rfl

theorem register_of_error (h : CommandInfo.ofOptions names options = .error f) (manner : Manner)
    (handler : Handler) : b.register names options manner handler = (b, .error f) := by
  rw [register, h]

theorem register_fst (h : CommandInfo.ofOptions names options = .ok info) (manner : Manner)
    (handler : Handler) :
    (b.register names options manner handler).1 = (b.registerInfo info manner handler).1 := by
  rw [register, h]
  dsimp only
  split
  next heq => rw [heq]
  next heq => rw [heq]

/-- A registration changes the registry alone, as far as names are concerned. -/
theorem register_registry (h : CommandInfo.ofOptions names options = .ok info) (manner : Manner)
    (handler : Handler) :
    (b.register names options manner handler).1.core.registry =
      b.core.registry.register info manner handler := by
  rw [register_fst h, registerInfo_registry]

theorem remove_of_key (h : n.key = .ok k) :
    b.remove n =
      ({ b with core := { b.core with registry := { b.core.registry with
          bindings := b.core.registry.bindings.filter fun e => e.key ≠ k } } },
        .ok (lookUpName b.core.registry.bindings k)) := by
  simp [remove, Registry.remove, h, bind, Except.bind, pure, Except.pure]

theorem remove_of_error (h : n.key = .error f) : b.remove n = (b, .error f) := by
  simp [remove, Registry.remove, h, bind, Except.bind]

end Bot

namespace RegistryOp

theorem lists_iff (o : RegistryOp) (h : n.key = .ok k) : o.Lists n ↔ k ∈ o.keys := by
  simp [Lists, h]

theorem removes_iff (o : RegistryOp) (h : n.key = .ok k) :
    o.Removes n ↔ ∃ m, o = .remove m ∧ m.key = .ok k := by
  refine exists_congr fun m => and_congr_right fun _ => ⟨fun hm => Setting.key_of_same hm h, ?_⟩
  exact fun hm => (Setting.key_eq_key_iff hm h).mp rfl

/-- **What an operation does to a name**: it gives the name to its command, or takes it away, or
leaves it alone. -/
theorem get_on (o : RegistryOp) (b : Bot) (n : Setting) (c : Command) :
    (o.on b).core.registry.get n = .ok (some c) ↔
      (o.Lists n ∧ o.command? b.core.registry.registrations = some c) ∨
        ¬o.Lists n ∧ ¬o.Removes n ∧ b.core.registry.get n = .ok (some c) := by
  cases hn : n.key with
  | error f => simp [Registry.get_of_error _ hn, Lists, hn]
  | ok k =>
    rw [o.lists_iff hn, o.removes_iff hn, Registry.get_of_key _ hn, Registry.get_of_key _ hn]
    simp only [Except.ok.injEq]
    cases o with
    | add names options manner handler =>
      cases hinfo : CommandInfo.ofOptions names options with
      | error f =>
        simp [on, Bot.register_of_error hinfo, keys, command?_of_error hinfo]
      | ok info =>
        rw [on, Bot.register_registry hinfo, keys_add hinfo, command?_add hinfo, Registry.register,
          Registry.rebinding, lookUpName_bindNames]
        by_cases hk : k ∈ keysOf info.names
        · simp [hk, Registry.nextCommand]
        · simp [hk]
    | remove m =>
      cases hm : m.key with
      | error f => simp [on, Bot.remove_of_error hm, keys, command?, hm]
      | ok k' =>
        rw [on, Bot.remove_of_key hm]
        dsimp only
        rw [lookUpName_filter]
        by_cases hk : k = k'
        · simp [hk, keys, command?, hm]
        · simp [hk, keys, command?, hm, Ne.symm hk]

theorem registrations_on (o : RegistryOp) (b : Bot) :
    (o.on b).core.registry.registrations =
      b.core.registry.registrations + if o.makes then 1 else 0 := by
  cases o with
  | add names options manner handler =>
    cases hinfo : CommandInfo.ofOptions names options with
    | error f => simp [on, Bot.register_of_error hinfo, makes, command?_of_error hinfo]
    | ok info =>
      rw [on, Bot.register_registry hinfo, makes, command?_add hinfo]
      rfl
  | remove m =>
    cases hm : m.key with
    | error f => simp [on, Bot.remove_of_error hm, makes, command?]
    | ok k => simp [on, Bot.remove_of_key hm, makes, command?]

theorem proper_on (o : RegistryOp) (h : Bindings.Proper b.core.registry.bindings) :
    Bindings.Proper (o.on b).core.registry.bindings := by
  cases o with
  | add names options manner handler =>
    cases hinfo : CommandInfo.ofOptions names options with
    | error f =>
      rw [on, Bot.register_of_error hinfo]
      exact h
    | ok info =>
      rw [on, Bot.register_registry hinfo]
      exact h.bindNames info.names
  | remove m =>
    cases hm : m.key with
    | error f =>
      rw [on, Bot.remove_of_error hm]
      exact h
    | ok k =>
      rw [on, Bot.remove_of_key hm]
      exact h.filter _

end RegistryOp

/-! ### What operations do -/

theorem registrations_administered (h : b.core.registry = {}) (ops : List RegistryOp) :
    (b.administered ops).core.registry.registrations = madeBy ops := by
  induction ops using List.reverseRecOn with
  | nil => exact congrArg Registry.registrations h
  | append_singleton ops o ih =>
    rw [Bot.administered_concat, RegistryOp.registrations_on, ih, madeBy_concat]

theorem proper_administered (h : b.core.registry = {}) (ops : List RegistryOp) :
    Bindings.Proper (b.administered ops).core.registry.bindings := by
  induction ops using List.reverseRecOn with
  | nil =>
    rw [Bot.administered, List.foldl_nil, h]
    exact ⟨nofun, List.nodup_nil⟩
  | append_singleton ops o ih =>
    rw [Bot.administered_concat]
    exact o.proper_on ih

theorem madeAt_concat_of_lt (h : i < ops.length) : madeAt (ops ++ [o]) i = madeAt ops i := by
  rw [madeAt, madeAt, List.getElem?_append_left h,
    List.take_append_of_le_length (Nat.le_of_lt h)]

@[simp] theorem madeAt_concat_length (ops : List RegistryOp) (o : RegistryOp) :
    madeAt (ops ++ [o]) ops.length = o.command? (madeBy ops) := by
  simp [madeAt]

theorem lt_length_of_madeAt (h : madeAt ops i = some c) : i < ops.length := by
  obtain ⟨o, ho, -⟩ := Option.bind_eq_some_iff.mp h
  exact (List.getElem?_eq_some_iff.mp ho).1

theorem registration_of_madeAt (h : madeAt ops i = some c) :
    c.registration = madeBy (ops.take i) := by
  obtain ⟨o, -, ho⟩ := Option.bind_eq_some_iff.mp h
  exact RegistryOp.registration_of_command? ho

/-- An operation that makes a command counts as one before all later ones. -/
theorem madeBy_take_lt (h : madeAt ops i = some c) (hij : i < j) :
    madeBy (ops.take i) < madeBy (ops.take j) := by
  obtain ⟨o, ho, hc⟩ := Option.bind_eq_some_iff.mp h
  have hmakes : o.makes = true := by rw [← o.command?_isSome (madeBy (ops.take i)), hc]; rfl
  have hnext : madeBy (ops.take (i + 1)) = madeBy (ops.take i) + 1 := by
    rw [List.take_add_one, ho, Option.toList_some, madeBy_concat, if_pos hmakes]
  have hle : madeBy (ops.take (i + 1)) ≤ madeBy (ops.take j) :=
    (List.take_sublist_take_left hij).countP_le
  omega

/-- The commands of different operations have different numbers. -/
theorem place_of_registration (hc : madeAt ops i = some c) (hd : madeAt ops j = some d)
    (h : c.registration = d.registration) : i = j := by
  rw [registration_of_madeAt hc, registration_of_madeAt hd] at h
  rcases Nat.lt_trichotomy i j with hij | hij | hij
  · exact absurd h (Nat.ne_of_lt (madeBy_take_lt hc hij))
  · exact hij
  · exact absurd h.symm (Nat.ne_of_lt (madeBy_take_lt hd hij))

theorem Counts.lt_length (h : Counts ops i n c) : i < ops.length := lt_length_of_madeAt h.made

theorem Counts.keys_eq (h : Counts ops i n c) :
    ∃ o, ops[i]? = some o ∧ o.keys = keysOf c.names ∧ o.Lists n := by
  obtain ⟨o, ho, hlists⟩ := h.listed
  obtain ⟨o', ho', hc⟩ := Option.bind_eq_some_iff.mp h.made
  obtain rfl : o = o' := Option.some.inj (ho.symm.trans ho')
  exact ⟨o, ho, RegistryOp.keys_of_command? hc, hlists⟩

/-- After one more operation, the last one counts if it lists the name, and an earlier one goes on
to count if the last one neither lists nor removes the name. -/
theorem counts_concat_iff :
    Counts (ops ++ [o]) i n c ↔
      (i = ops.length ∧ o.Lists n ∧ o.command? (madeBy ops) = some c) ∨
        Counts ops i n c ∧ ¬o.Lists n ∧ ¬o.Removes n := by
  constructor
  · intro h
    have hi := h.lt_length
    rw [List.length_append, List.length_singleton, Nat.lt_succ_iff_lt_or_eq] at hi
    obtain ⟨hmade, ⟨o', ho', hlists⟩, hlast⟩ := h
    rcases hi with hi | rfl
    · rw [madeAt_concat_of_lt hi] at hmade
      rw [List.getElem?_append_left hi] at ho'
      refine .inr ⟨⟨hmade, ⟨o', ho', hlists⟩, fun j o'' hij hj => ?_⟩, hlast _ o hi (by simp)⟩
      refine hlast j o'' hij ?_
      rw [List.getElem?_append_left (List.getElem?_eq_some_iff.mp hj).1, hj]
    · rw [madeAt_concat_length] at hmade
      obtain rfl : o = o' := by simpa using ho'
      exact .inl ⟨rfl, hlists, hmade⟩
  · rintro (⟨rfl, hlists, hmade⟩ | ⟨h, hkept⟩)
    · refine ⟨by rwa [madeAt_concat_length], ⟨o, by simp, hlists⟩, fun j o' hij hj => ?_⟩
      have hlt := (List.getElem?_eq_some_iff.mp hj).1
      rw [List.length_append, List.length_singleton] at hlt
      omega
    · have hi := h.lt_length
      obtain ⟨o', ho', hlists⟩ := h.listed
      refine ⟨by rw [madeAt_concat_of_lt hi, h.made],
        ⟨o', by rw [List.getElem?_append_left hi, ho'], hlists⟩, fun j o'' hij hj => ?_⟩
      rcases Nat.lt_or_ge j ops.length with hlt | hge
      · rw [List.getElem?_append_left hlt] at hj
        exact h.last j o'' hij hj
      · have hlt := (List.getElem?_eq_some_iff.mp hj).1
        rw [List.length_append, List.length_singleton] at hlt
        obtain rfl : j = ops.length := by omega
        obtain rfl : o = o'' := by simpa using hj
        exact hkept

/-- **What a name stands for after any operations**: the last registration under it counts, unless
the name was removed since. -/
theorem get_administered_iff (h : b.core.registry = {}) (ops : List RegistryOp) :
    (b.administered ops).core.registry.get n = .ok (some c) ↔ ∃ i, Counts ops i n c := by
  induction ops using List.reverseRecOn with
  | nil =>
    constructor
    · intro hget
      obtain ⟨k, -, hk⟩ := Registry.get_eq_some_iff.mp hget
      rw [Bot.administered, List.foldl_nil, h] at hk
      cases hk
    · rintro ⟨i, hi⟩
      exact absurd hi.lt_length (Nat.not_lt_zero i)
  | append_singleton ops o ih =>
    rw [Bot.administered_concat, RegistryOp.get_on, registrations_administered h, ih]
    simp only [counts_concat_iff, exists_or, exists_eq_left, exists_and_right]
    exact or_congr_right (and_assoc.symm.trans and_comm)

/-! ### Names and commands after operations -/

/-- What is found of a bot whose registry began empty and was changed by operations. -/
structure Bot.Recounts (b : Bot) (ops : List RegistryOp) : Prop where
  /-- A name stands for the command of the last registration that listed it, unless it was removed
  since. -/
  stands : ∀ n k, n.key = .ok k → ∃ x, b.core.registry.get n = .ok x ∧
    ∀ c, x = some c ↔ ∃ i, Counts ops i n c
  /-- The names are those that stand for something, each once. -/
  named : ∀ n, (∃ m ∈ b.core.registry.names, m.same n) ↔
    ∃ c, b.core.registry.get n = .ok (some c)
  named_once : b.core.registry.names.Pairwise fun m n => ¬m.same n
  /-- A removal tells what the name stood for, and unbinds that name alone. -/
  removed : ∀ n, (b.remove n).2 = b.core.registry.get n ∧
    ∀ m, (b.remove n).1.core.registry.get m =
      if m.same n then (b.core.registry.get m).map fun _ => none else b.core.registry.get m
  /-- The commands are those that some name stands for, each once. -/
  listed : ∀ c, c ∈ b.core.registry.commands ↔ ∃ n, b.core.registry.get n = .ok (some c)
  listed_once : (b.core.registry.commands.map (·.registration)).Nodup
  /-- Every registration makes a command of its own, with what was given for it. -/
  made : ∀ i c, madeAt ops i = some c → ∃ names options o,
    o = RegistryOp.add names options c.manner c.handler ∧ ops[i]? = some o ∧
      CommandInfo.readNames names = .ok c.names ∧
      CommandInfo.ofOptions names options = .ok c.toCommandInfo ∧
      ((∀ m ∈ c.names, ∃ k, m.key = .ok k) → ∀ n, o.Lists n ↔ ∃ m ∈ c.names, m.same n)
  made_once : ∀ i j c d, madeAt ops i = some c → madeAt ops j = some d →
    c.registration = d.registration → i = j
  /-- A registration without names that can be gone through, without any name, or with an option
  that no command can have fails and leaves the bot as it is. -/
  failed : ∀ names options manner handler,
    ((∃ f, CommandInfo.readNames names = .error f) ∨ CommandInfo.readNames names = .ok [] ∨
      ∃ o ∈ options, CommandInfo.Unfit o) →
    ∃ f, b.register names options manner handler = (b, .error f)
  /-- Every other registration succeeds, if all its names can be kept. -/
  registered : ∀ names options manner handler ns, CommandInfo.readNames names = .ok ns → ns ≠ [] →
    (∀ m ∈ ns, ∃ k, m.key = .ok k) → (∀ o ∈ options, ¬CommandInfo.Unfit o) →
    ∃ info, (b.register names options manner handler).2 = .ok info ∧ info.names = ns

/-- Commands that names stand for are told apart by their numbers. -/
theorem eq_of_registration (h : b.core.registry = {}) {m : Setting}
    (hc : (b.administered ops).core.registry.get n = .ok (some c))
    (hd : (b.administered ops).core.registry.get m = .ok (some d))
    (heq : c.registration = d.registration) : c = d := by
  obtain ⟨i, hi⟩ := (get_administered_iff h ops).mp hc
  obtain ⟨j, hj⟩ := (get_administered_iff h ops).mp hd
  obtain rfl := place_of_registration hi.made hj.made heq
  exact Option.some.inj (hi.made.symm.trans hj.made)

/-- A command is listed if some name stands for it. -/
theorem mem_commands_administered (h : b.core.registry = {}) (ops : List RegistryOp) :
    c ∈ (b.administered ops).core.registry.commands ↔
      ∃ n, (b.administered ops).core.registry.get n = .ok (some c) := by
  have hproper := proper_administered h ops
  rw [← hproper.exists_binding_iff]
  constructor
  · intro hc
    exact List.mem_map.mp (Registry.mem_of_mem_distinct hc)
  · rintro ⟨e, he, rfl⟩
    obtain ⟨d, hd, hreg⟩ := Registry.exists_mem_distinct
      (List.mem_map.mpr ⟨e, he, rfl⟩ : e.command ∈ _)
    obtain ⟨e', he', rfl⟩ := List.mem_map.mp (Registry.mem_of_mem_distinct hd)
    obtain ⟨n, hn⟩ := hproper.exists_binding_iff.mp ⟨e, he, rfl⟩
    obtain ⟨m, hm⟩ := hproper.exists_binding_iff.mp ⟨e', he', rfl⟩
    rw [← eq_of_registration h hm hn hreg]
    exact hd

/-- A removal tells what the name stood for, and unbinds that name alone. -/
theorem Bot.remove_get (b : Bot) (n : Setting) :
    (b.remove n).2 = b.core.registry.get n ∧
      ∀ m, (b.remove n).1.core.registry.get m =
        if m.same n then (b.core.registry.get m).map fun _ => none else b.core.registry.get m := by
  cases hn : n.key with
  | error f =>
    rw [Bot.remove_of_error hn, Registry.get_of_error _ hn]
    refine ⟨rfl, fun m => ?_⟩
    split
    next hsame =>
      -- Nothing can be kept under `m` either.
      cases hm : m.key with
      | error f' => rw [Registry.get_of_error _ hm]; rfl
      | ok k => rw [Setting.key_of_same (Setting.same_equivalence.symm hsame) hm] at hn; cases hn
    · rfl
  | ok k =>
    rw [Bot.remove_of_key hn, Registry.get_of_key _ hn]
    refine ⟨rfl, fun m => ?_⟩
    cases hm : m.key with
    | error f' => simp [Registry.get_of_error _ hm, Except.map]
    | ok k' =>
      have hsame : k' = k ↔ m.same n := Setting.key_eq_key_iff hm hn
      rw [Registry.get_of_key _ hm, Registry.get_of_key _ hm, lookUpName_filter]
      by_cases hk : k' = k
      · rw [if_pos hk, if_pos (hsame.mp hk)]
        rfl
      · rw [if_neg hk, if_neg (hsame.not.mp hk)]

/-- A registration with names that can all be kept and options that commands have succeeds. -/
theorem Bot.register_succeeds (b : Bot) {ns : List Setting}
    (hnames : CommandInfo.readNames names = .ok ns) (hne : ns ≠ [])
    (hkeys : ∀ m ∈ ns, ∃ k, m.key = .ok k) (hfit : ∀ o ∈ options, ¬CommandInfo.Unfit o)
    (manner : Manner) (handler : Handler) :
    ∃ info, (b.register names options manner handler).2 = .ok info ∧ info.names = ns := by
  cases hinfo : CommandInfo.ofOptions names options with
  | error f =>
    rcases CommandInfo.ofOptions_error_iff.mp ⟨f, hinfo⟩ with ⟨f', hf⟩ | hnil | ⟨o, ho, hunfit⟩
    · rw [hnames] at hf
      cases hf
    · exact (hne (Except.ok.inj (hnames.symm.trans hnil))).elim
    · exact (hfit o ho hunfit).elim
  | ok info =>
    obtain rfl : ns = info.names :=
      Except.ok.inj (hnames.symm.trans (CommandInfo.readNames_of_ofOptions hinfo))
    refine ⟨info, ?_, rfl⟩
    have hfault : (b.core.registry.rebinding info manner handler).fault = none :=
      bindNames_fault _ _ hkeys
    rw [Bot.register, hinfo]
    simp [Bot.registerInfo, hfault]

theorem exists_add_of_madeAt (h : madeAt ops i = some c) :
    ∃ names options o, o = RegistryOp.add names options c.manner c.handler ∧ ops[i]? = some o ∧
      CommandInfo.readNames names = .ok c.names ∧
      CommandInfo.ofOptions names options = .ok c.toCommandInfo ∧
      ((∀ m ∈ c.names, ∃ k, m.key = .ok k) → ∀ n, o.Lists n ↔ ∃ m ∈ c.names, m.same n) := by
  obtain ⟨o, ho, hc⟩ := Option.bind_eq_some_iff.mp h
  cases o with
  | remove m => cases hc
  | add names options manner handler =>
    cases hinfo : CommandInfo.ofOptions names options with
    | error f => rw [RegistryOp.command?_of_error hinfo] at hc; cases hc
    | ok info =>
      rw [RegistryOp.command?_add hinfo] at hc
      obtain rfl := Option.some.inj hc
      refine ⟨names, options, _, rfl, ho, CommandInfo.readNames_of_ofOptions hinfo, hinfo, ?_⟩
      intro hkeys n
      rw [RegistryOp.Lists, RegistryOp.keys_add hinfo]
      constructor
      · rintro ⟨k, hk, hn⟩
        obtain ⟨m, hm, hmk⟩ := (mem_keysOf_iff hkeys).mp hk
        exact ⟨m, hm, (Setting.key_eq_key_iff hmk hn).mp rfl⟩
      · rintro ⟨m, hm, hsame⟩
        obtain ⟨k, hk⟩ := hkeys m hm
        exact ⟨k, (mem_keysOf_iff hkeys).mpr ⟨m, hm, hk⟩,
          Setting.key_of_same (Setting.same_equivalence.symm hsame) hk⟩

/-- **The registry after any operations**, for a bot whose registry was empty before them. -/
theorem registry_recounts (h : b.core.registry = {}) (ops : List RegistryOp) :
    (b.administered ops).Recounts ops := by
  have hproper := proper_administered h ops
  constructor
  case stands =>
    intro n k hk
    refine ⟨_, Registry.get_of_key _ hk, fun c => ?_⟩
    rw [← get_administered_iff h ops, Registry.get_of_key _ hk, Except.ok.injEq]
  case named => exact fun n => hproper.exists_name_iff
  case named_once => exact hproper.names_pairwise
  case removed => exact fun n => Bot.remove_get _ n
  case listed => exact fun c => mem_commands_administered h ops
  case listed_once => exact Registry.distinct_nodup _
  case made => exact fun i c => exists_add_of_madeAt
  case made_once => exact fun i j c d => place_of_registration
  case failed =>
    intro names options manner handler hbad
    obtain ⟨f, hf⟩ := CommandInfo.ofOptions_error_iff.mpr hbad
    exact ⟨f, Bot.register_of_error hf manner handler⟩
  case registered =>
    intro names options manner handler ns hnames hne hkeys hfit
    exact Bot.register_succeeds _ hnames hne hkeys hfit manner handler

/-- A command is replaced by one that is registered alike, and another is left with its alias, as
its own name is removed. Registrations that fail come in between. -/
theorem registry_recounts_replaced :
    ∃ (b : Bot) (ops : List RegistryOp), b.core.registry = {} ∧
      ops.map RegistryOp.makes = [true, true, false, true, false, false, false, false] ∧
      (b.administered ops).Recounts ops ∧
      (b.administered ops).core.registry.names = ["x", "y"] ∧
      (["x", "y", "z"].map fun name =>
        ((b.administered ops).core.registry.get (.text name)).toOption.join.map
          (·.registration)) = [some 2, some 1, none] ∧
      (b.administered ops).core.registry.commands.map (·.registration) = [2, 1] := by
  let b : Bot := .build (.fixed .null [] [] []) (.literal "!") { helpNames := .many [] } .null
  let answers : Handler := fun _ _ => pure (.text "a")
  let ops : List RegistryOp :=
    [.add "x" [("usage", "u")] .inline answers, .add (.list ["z", "y"]) [] .thread answers,
      .add (.list []) [] .inline answers, .add "x" [("usage", "u")] .inline answers,
      .add "y" [("colour", "red")] .inline answers, .remove "z",
      .add "y" [("required_permissions", .int 3)] .inline answers, .remove "q"]
  have h : b.core.registry = {} := rfl
  exact ⟨b, ops, h, by decide +kernel, registry_recounts h ops, by decide +kernel,
    by decide +kernel, by decide +kernel⟩

end ChatCommands
