import ChatCommands.Proofs.Console.Paces
import ChatCommands.Proofs.Registry.History

/-!
# The console program answers line by line

The program runs a bot whose commands are brief: they make a few requests, call nothing and wait for
nothing. So the unit of a line comes to its end before the next line is read, at the end of the
input nothing is left to wait for, and what is written for an input is what is written for its
lines.

## Main definitions

* `typedLines`: the lines of an input
* `AnswersLines`: how a program writes that answers line by line

## Main results

* `consoleProgram_starts`: the program starts as a bot at a console that nobody has written to yet
* `typedLines_append`: the lines of inputs one behind the other
* `console_answers_lines`: the program answers line by line
-/

namespace ChatCommands

open Console (messageOf)

/-! ## The commands of the program -/

theorem echoHandler_brief (m : Message) (as : List Setting) : (echoHandler m as).Brief 2 :=
  trivial

theorem listAll_brief : listAll.Brief 2 := by
  refine ⟨rfl, fun cs => ?_⟩
  show Program.Brief (if _ then _ else _) 1
  split
  · exact ⟨rfl, fun reply => by cases reply <;> trivial⟩
  · trivial

theorem describeNamed_brief (name : Setting) : (describeNamed name).Brief 2 := by
  refine ⟨rfl, fun reply => ?_⟩
  rcases reply with f | - | c
  · trivial
  · trivial
  · show Program.Brief (Program.bind (.done (describeCommand name c)) _) 1
    cases describeCommand name c <;> trivial

theorem helpHandler_brief (m : Message) (as : List Setting) : (helpHandler m as).Brief 2 := by
  unfold helpHandler
  split
  · exact listAll_brief
  · split
    · exact describeNamed_brief _
    · exact listAll_brief

theorem Registry.Brief.register {r : Registry} {n : Nat} (h : r.Brief n) (info : CommandInfo)
    {handler : Handler} (hh : ∀ m as, (handler m as).Brief n) :
    (r.register info .inline handler).Brief n := by
  intro e he
  rcases mem_bindNames he with he | he
  · exact h e he
  · rw [he]
    exact ⟨rfl, hh⟩

/-! ## The lines that trigger the program -/

theorem length_of_dropLeading {lead line text : String} (h : dropLeading lead line = some text) :
    text.length ≤ line.length := by
  unfold dropLeading at h
  split at h
  · obtain rfl := Option.some.inj h
    simp [← String.length_toList]
  · cases h

namespace Prefix

/-- What stands behind a mark that is a text. -/
theorem behind_of_text {mark : Setting} {lead : String} (h : mark.text? = some lead)
    (line : String) :
    behind mark line = .ok (dropLeading lead line) := by
  rw [behind, textsOf, h]
  rfl

/-- What stands behind the first of some texts that a line begins with is no longer than the
line. -/
theorem behindFirst_of_texts (line : String) {marks : List Setting}
    (h : ∀ v ∈ marks, v.text?.isSome) :
    ∃ rest : Option String, behindFirst line marks = .ok rest ∧
      ∀ text ∈ rest, text.length ≤ line.length := by
  induction marks with
  | nil => exact ⟨none, rfl, by rintro text ⟨⟩⟩
  | cons mark marks ih =>
    obtain ⟨lead, hlead⟩ := Option.isSome_iff_exists.mp (h mark List.mem_cons_self)
    rw [behindFirst, behind_of_text hlead]
    rcases hd : dropLeading lead line with - | text
    · exact ih fun v hv => h v (List.mem_cons_of_mem _ hv)
    · refine ⟨some text, rfl, ?_⟩
      rintro _ ⟨⟩
      exact length_of_dropLeading hd

/-- A prefix that is a text, or some texts, tells of every text what stands behind it, which is no
longer. -/
theorem remainder_of_ofSetting {v : Setting} {p : Prefix} (h : ofSetting v = .ok p)
    (line : String) :
    ∃ rest : Option String, p.remainder line = .ok (.ofText? rest) ∧
      ∀ text ∈ rest, text.length ≤ line.length := by
  unfold ofSetting at h
  split at h
  next lead =>
    obtain rfl := Except.ok.inj h
    refine ⟨dropLeading lead line, ?_, fun text ht => length_of_dropLeading ht⟩
    rw [remainder, behind_of_text rfl]
    rfl
  next marks =>
    split at h
    · cases h
    next hmarks =>
      obtain rfl := Except.ok.inj h
      have htexts : ∀ v ∈ marks, v.text?.isSome := by
        intro v hv
        simp only [Bool.or_eq_true, not_or, List.any_eq_true, not_exists, not_and] at hmarks
        exact Option.isSome_iff_ne_none.mpr (by simpa using hmarks.2 v hv)
      obtain ⟨rest, hrest, hlength⟩ := behindFirst_of_texts line htexts
      refine ⟨rest, ?_, hlength⟩
      rw [remainder, hrest]
      rfl
  · cases h

end Prefix

/-- Whether a text triggers such a bot can be told, and its chain text is no longer. -/
theorem Bot.judged_of_ofSetting {b : Bot} {v : Setting} (h : Prefix.ofSetting v = .ok b.trigger)
    (line : String) :
    ∃ t, (b.chainText line).2 = .ok t ∧ ∀ text ∈ t, text.length ≤ line.length := by
  obtain ⟨- | chain, hrest, hlength⟩ := Prefix.remainder_of_ofSetting h line
  · refine ⟨none, ?_, by rintro text ⟨⟩⟩
    simp only [chainText, ChatCommands.trigger, hrest]
    rfl
  · refine ⟨(gate b.core.attributes chain).chain, ?_, ?_⟩
    · simp only [chainText, ChatCommands.trigger, hrest]
      rfl
    · intro text ht
      -- What the gate lets through is the text behind the prefix.
      have hgate : text = chain := by
        unfold gate at ht
        repeat' split at ht
        all_goals cases ht
        rfl
      exact hlength text (hgate ▸ rfl)

/-! ## The program as it starts -/

namespace Bot

/-- What a registration changes: the registry, and the journal. -/
theorem registerInfo_eq (b : Bot) (info : CommandInfo) (manner : Manner) (handler : Handler) :
    ∃ ls, (b.registerInfo info manner handler).1 = { b with
      core := { b.core.logAll none ls with
        registry := b.core.registry.register info manner handler } } := by
  unfold registerInfo
  dsimp only
  let conflicts :=
    (b.core.registry.rebinding info manner handler).conflicts.map LogEvent.commandConflict
  split
  · have hlog : b.core.logAll none (conflicts ++ [.commandRegistered info.name info.aliases]) =
        (b.core.logAll none conflicts).log none (.commandRegistered info.name info.aliases) := by
      simp [Core.logAll, List.foldl_append]
    refine ⟨conflicts ++ [.commandRegistered info.name info.aliases], ?_⟩
    rw [hlog]
    rfl
  · exact ⟨conflicts, rfl⟩

theorem build_eq (transport : Transport) (p : Prefix) (a : Attributes) (timeout : Setting) :
    ∃ s : Core, build transport p a timeout = ⟨p, s, {}, timeout⟩ ∧ s.transport = transport ∧
      s.registry.Brief 2 := by
  unfold build
  dsimp only
  split
  · exact ⟨_, rfl, rfl, List.forall_mem_nil _⟩
  next name aliases _ =>
    obtain ⟨ls, hb⟩ := registerInfo_eq
      { trigger := p, core := { attributes := a, transport := transport }, timeout := timeout }
      (helpInfo name aliases) .inline helpHandler
    rw [hb]
    refine ⟨_, rfl, congrArg (·.transport) (Core.logAll_tables _ none ls), ?_⟩
    exact Registry.Brief.register (r := {}) (List.forall_mem_nil _) _ helpHandler_brief

end Bot

/-- The program starts as a bot at a console that nobody has written to yet. -/
theorem consoleProgram_starts {s : Surroundings} {b : Bot} (h : consoleProgram s = .ok b) :
    b.forgetJournal.AtConsole ∧ b.forgetJournal.AtRest b.forgetJournal := by
  obtain ⟨first, -, h⟩ := except_bind_eq_ok h
  obtain ⟨-, -, h⟩ := except_bind_eq_ok h
  obtain ⟨-, -, h⟩ := except_bind_eq_ok h
  obtain ⟨⟨b₁, _⟩, hbot, h⟩ := except_bind_eq_ok h
  obtain ⟨v, -, hbot⟩ := except_bind_eq_ok hbot
  obtain ⟨a, -, hbot⟩ := except_bind_eq_ok hbot
  obtain ⟨timeout, -, hbot⟩ := except_bind_eq_ok hbot
  obtain ⟨p, hp, hbot⟩ := except_bind_eq_ok hbot
  obtain rfl : Bot.build consoleTransport p a timeout = b₁ := congrArg Prod.fst (Except.ok.inj hbot)
  obtain ⟨core, hbuild, htransport, hbrief⟩ := Bot.build_eq consoleTransport p a timeout
  obtain ⟨ls, hecho⟩ :=
    Bot.registerInfo_eq (Bot.build consoleTransport p a timeout) echoInfo .inline echoHandler
  obtain rfl := (Except.ok.inj h).symm.trans hecho
  rw [hbuild]
  refine ⟨⟨?brief, ?heard, ?judged⟩,
    ⟨⟨rfl, rfl, rfl, .nil, List.nodup_nil, ?ended, ?tracked⟩, rfl, rfl⟩⟩
  case brief => exact hbrief.register echoInfo echoHandler_brief
  case heard =>
    have hself : (core.logAll none ls).transport = consoleTransport :=
      (congrArg (·.transport) (core.logAll_tables none ls)).trans htransport
    show (!(core.logAll none ls).transport.selfId.isNull &&
      consoleUser.id.same (core.logAll none ls).transport.selfId) = false
    rw [hself]
    rfl
  case judged => exact Bot.judged_of_ofSetting hp
  case ended =>
    intro i u hu
    cases hu
  case tracked => exact List.forall_mem_nil _

/-! ## The lines of an input -/

/-- The lines of an input, whatever ends of line it has. -/
def typedLines (input : String) : List String :=
  linesOf (String.ofList (unifyLineEnds input.toList))

theorem runConsole_eq {s : Surroundings} {b : Bot} (h : consoleProgram s = .ok b)
    (input : String) :
    runConsole s input = .ok (transcript b.forgetJournal (typedLines input)) := by
  rw [runConsole, h]
  rfl

@[simp] theorem typedLines_empty : typedLines "" = [] := rfl

/-- What stands behind a line feed does not change the ends of line before it. -/
theorem exists_unifyLineEnds (s : List Char) :
    ∃ s', ∀ t, unifyLineEnds (s ++ '\n' :: t) = s' ++ '\n' :: unifyLineEnds t := by
  induction s using unifyLineEnds.induct with
  | case1 s ih =>
    obtain ⟨s', hs'⟩ := ih
    exact ⟨'\n' :: s', fun t => by simp [unifyLineEnds, hs']⟩
  | case2 s hs ih =>
    rcases s with - | ⟨c, s⟩
    · -- The line feed ends the line together with what stands before it.
      exact ⟨[], fun t => rfl⟩
    · obtain ⟨s', hs'⟩ := ih
      refine ⟨'\n' :: s', fun t => ?_⟩
      have hc : ∀ r, c :: (s ++ '\n' :: t) = '\n' :: r → False := by
        rintro r ⟨⟩
        exact hs s rfl
      rw [List.cons_append, List.cons_append, unifyLineEnds.eq_2 _ hc, List.cons_append, ← hs' t]
      rfl
  | case3 c s hc hc' ih =>
    obtain ⟨s', hs'⟩ := ih
    refine ⟨c :: s', fun t => ?_⟩
    rw [List.cons_append, List.cons_append, ← hs' t]
    exact unifyLineEnds.eq_3 c _ (fun _ hr _ => hc' hr) hc'
  | case4 => exact ⟨[], fun t => by simp [unifyLineEnds]⟩

theorem linesFrom_append (line s t : List Char) :
    linesFrom line (s ++ '\n' :: t) = linesFrom line (s ++ ['\n']) ++ linesFrom [] t := by
  induction s generalizing line with
  | nil => rfl
  | cons c s ih =>
    rw [List.cons_append, List.cons_append, linesFrom, linesFrom]
    split
    · rw [ih, List.cons_append]
    · exact ih _

/-- **Inputs one behind the other** have the lines of the first and then those of the second, where
the first ends its last line. -/
theorem typedLines_append (t₁ t₂ : String) :
    typedLines (t₁ ++ "\n" ++ t₂) = typedLines (t₁ ++ "\n") ++ typedLines t₂ := by
  obtain ⟨s, hs⟩ := exists_unifyLineEnds t₁.toList
  have hlines (t : String) : typedLines (t₁ ++ "\n" ++ t) =
      (linesFrom [] (s ++ ['\n'])).map String.ofList ++ typedLines t := by
    have hunify : unifyLineEnds (t₁ ++ "\n" ++ t).toList = s ++ '\n' :: unifyLineEnds t.toList := by
      rw [String.toList_append, String.toList_append, List.append_assoc]
      exact hs t.toList
    rw [typedLines, linesOf, hunify, String.toList_ofList, linesFrom_append, List.map_append]
    rw [typedLines, linesOf, String.toList_ofList]
  have hone := hlines ""
  rw [String.append_empty, typedLines_empty, List.append_nil] at hone
  rw [hlines, hone]

/-! ## What the program writes -/

/-- The program that starts so with this bot answers line by line. -/
structure AnswersLines (s : Surroundings) (b : Bot) : Prop where
  /-- For every line there is one thing to be written: nothing if it does not trigger the bot, and
  otherwise what its chain sends when it runs to its end all alone. -/
  existsUnique : ∀ line, ∃! w, b.Says line w
  /-- Whatever a chain sends can be written, so that no reply is lost. -/
  writable : ∀ {line text : String} {n : Nat} {l : List Entry},
    (b.chainText line).2 = .ok (some text) → b.core.tables.Replies (messageOf 0 line) text n l →
      ∀ x ∈ l, ∀ o, x.what = .sent o → ∃ t, (consoleSending o).line = .ok t
  /-- Nothing else is written for lines, and in their order. -/
  transcript_eq : ∀ {lines ws : List String}, List.Forall₂ b.Says lines ws →
    transcript b lines = String.join ws
  /-- A line that does not trigger the bot writes nothing. -/
  ignored : ∀ {line : String}, (b.chainText line).2 = .ok none → transcript b [line] = ""
  append : ∀ lines more, transcript b (lines ++ more) = transcript b lines ++ transcript b more
  /-- An input behind another writes what it writes alone, where the first ends its last line. -/
  input : ∀ t₁ t₂ : String, t₁ = "" ∨ (∃ t, t₁ = t ++ "\n") → ∃ w₁ w₂,
    runConsole s t₁ = .ok w₁ ∧ runConsole s t₂ = .ok w₂ ∧ runConsole s (t₁ ++ t₂) = .ok (w₁ ++ w₂)
  /-- At the end of the input every unit has come to its end, and none is cancelled. -/
  stop_eq : ∀ lines, (∀ u ∈ (b.afterLines lines).units.units, u.stage = .done) ∧
    (b.afterLines lines).stop = ({ b.afterLines lines with
      core := (b.afterLines lines).core.log none (.botStopped 0) }, .ok ())
  /-- So it is where lines are read faster than they are answered, and their units have their turns
  when the bot stops only, if each line is short enough for its chain to end within a turn. -/
  paced : ∀ (lines : List (String × Nat)) (turns : Nat), (∃ t, timeLimit b.timeout = .ok t) →
    (∀ x ∈ lines, 4 * x.1.length + 5 ≤ turnLength) → lines.length ≤ turns →
      ((b.readPaced lines).stopIn turns).2 = .ok () ∧
      (∀ u ∈ ((b.readPaced lines).stopIn turns).1.units.units, u.stage = .done) ∧
      (∃ c : Core, ((b.readPaced lines).stopIn turns).1.core = c.log none (.botStopped 0)) ∧
      written ((b.readPaced lines).stopIn turns).1.core.journal =
        transcript b (lines.map Prod.fst)

namespace Bot

variable {b : Bot}

/-- There is something to be written for each of some lines. -/
theorem AtConsole.exists_forall₂ (h : b.AtConsole) (lines : List String) :
    ∃ ws, List.Forall₂ b.Says lines ws := by
  induction lines with
  | nil => exact ⟨[], .nil⟩
  | cons line lines ih =>
    obtain ⟨ws, hws⟩ := ih
    rcases h.ignored_or_answered line with hnone | ⟨text, l, ht, hl, -⟩
    · exact ⟨_, .cons (.ignored hnone) hws⟩
    · exact ⟨_, .cons (.answered ht hl) hws⟩

/-- Whatever a chain sends can be written. -/
theorem AtConsole.writable (h : b.AtConsole) {line text : String} {n : Nat} {l : List Entry}
    (ht : (b.chainText line).2 = .ok (some text))
    (hl : b.core.tables.Replies (messageOf 0 line) text n l) :
    ∀ x ∈ l, ∀ o, x.what = .sent o → ∃ t, (consoleSending o).line = .ok t := by
  intro x hx o ho
  rcases h.ignored_or_answered line with hnone | ⟨text', l', ht', hl', htext⟩
  · cases ht.symm.trans hnone
  · cases ht.symm.trans ht'
    obtain rfl := hl.unique hl'
    have hsent := htext x hx
    rw [ho] at hsent
    cases o with
    | reply c t =>
      obtain ⟨r, hr⟩ := Option.isSome_iff_exists.mp (show t.text?.isSome = true from hsent)
      exact ⟨asLine r, by simp only [consoleSending, ConsoleSending.line, hr]⟩
    | file c f caption => exact ⟨_, rfl⟩
    | direct u t => exact ⟨_, rfl⟩

/-- Lines that are read at any pace are answered by the time the bot has stopped. -/
theorem AtConsole.stop_paced (h : b.AtConsole) (hrest : b.AtRest b) {lines : List (String × Nat)}
    {turns : Nat} (ht : ∃ t, timeLimit b.timeout = .ok t)
    (hl : ∀ x ∈ lines, 4 * x.1.length + 5 ≤ turnLength) (hturns : lines.length ≤ turns) :
    ((b.readPaced lines).stopIn turns).2 = .ok () ∧
      b.Pending [] ((b.readPaced lines).stopIn turns).1 ∧
      (∃ c : Core, ((b.readPaced lines).stopIn turns).1.core = c.log none (.botStopped 0)) ∧
      written ((b.readPaced lines).stopIn turns).1.core.journal =
        transcript b (lines.map Prod.fst) := by
  obtain ⟨ws, hws⟩ := h.exists_forall₂ (lines.map Prod.fst)
  obtain ⟨owed, hpending, hshort, hlength, hpromised⟩ := hrest.pending.readPaced h
    (List.forall_mem_nil _) hl (List.forall₂_map_left_iff.mp hws)
  rw [List.length_nil, Nat.zero_add] at hlength
  obtain ⟨hok, hpending', hcore, hwritten⟩ :=
    hpending.stop hshort (Nat.le_trans hlength hturns) (.inr ht)
  refine ⟨hok, hpending', hcore, ?_⟩
  rw [hwritten, hpromised, hrest.transcript h hws, promised_nil, hrest.journal]
  exact String.empty_append

end Bot

/-- **The console program answers line by line**: whatever lines are read, and at the end of the
input, it writes what is to be written for each line, in order, and nothing else. -/
theorem console_answers_lines {s : Surroundings} {b : Bot} (h : consoleProgram s = .ok b) :
    AnswersLines s b.forgetJournal := by
  obtain ⟨hconsole, hrest⟩ := consoleProgram_starts h
  have happend (lines more : List String) : transcript b.forgetJournal (lines ++ more) =
      transcript b.forgetJournal lines ++ transcript b.forgetJournal more := by
    obtain ⟨ws, hws⟩ := hconsole.exists_forall₂ lines
    obtain ⟨ws', hws'⟩ := hconsole.exists_forall₂ more
    rw [hrest.transcript hconsole (List.rel_append hws hws'), hrest.transcript hconsole hws,
      hrest.transcript hconsole hws', String.join_append]
  constructor
  case existsUnique =>
    intro line
    obtain ⟨ws, hws⟩ := hconsole.exists_forall₂ [line]
    obtain ⟨w, -, hw, -⟩ := List.forall₂_cons_left_iff.mp hws
    exact ⟨w, hw, fun w' hw' => hw'.unique hw⟩
  case writable => exact hconsole.writable
  case transcript_eq => exact hrest.transcript hconsole
  case ignored =>
    intro line hline
    rw [hrest.transcript hconsole (.cons (.ignored hline) .nil)]
    rfl
  case append => exact happend
  case input =>
    intro t₁ t₂ ht
    refine ⟨_, _, runConsole_eq h t₁, runConsole_eq h t₂, ?_⟩
    rw [runConsole_eq h, ← happend]
    rcases ht with rfl | ⟨t, rfl⟩
    · rw [typedLines_empty, List.nil_append, String.empty_append]
    · rw [typedLines_append]
  case stop_eq =>
    intro lines
    obtain ⟨ws, hws⟩ := hconsole.exists_forall₂ lines
    have hrest' := hrest.afterLines hconsole hws
    exact ⟨hrest'.pending.done, hrest'.stop⟩
  case paced =>
    intro lines turns ht hl hturns
    obtain ⟨hok, hpending, hcore, hwritten⟩ := hconsole.stop_paced hrest ht hl hturns
    exact ⟨hok, hpending.done, hcore, hwritten⟩

theorem FilePath.ofText_root : ofText "/" = ⟨"/", []⟩ := by
  have hsplit : "/".splitOn "/" = ["", ""] := by
    -- One turn for the slash, and one for the end of the text.
    rw [String.splitOn, if_neg (by decide), String.splitOnAux, if_neg (by decide),
      if_pos (by decide), if_pos (by decide), String.splitOnAux, if_pos (by decide)]
    rfl
  rw [ofText, hsplit]
  rfl

/-- A program that is started at the root of the files, with chains switched on. -/
def chainingSurroundings : Surroundings where
  settings := some (.table [("advanced_functionality", .bool true)])
  directory := "/"
  home := "/"

/-- Two lines of three trigger that program. Nothing ends the last line but the end of the input. -/
theorem console_answers_lines_chaining :
    ∃ b, consoleProgram chainingSurroundings = .ok b ∧
      AnswersLines chainingSurroundings b.forgetJournal ∧
      runConsole chainingSurroundings "!echo a [echo b] > echo ~\nhi\n!help: echo" =
        .ok "a b\n**`echo`**: Repeats its arguments.\nUsage: `echo <text...>`\n" := by
  have hrun : runConsole chainingSurroundings "!echo a [echo b] > echo ~\nhi\n!help: echo" =
      .ok "a b\n**`echo`**: Repeats its arguments.\nUsage: `echo <text...>`\n" := by
    simp only [runConsole, consoleProgram, Config.load, Surroundings.plainFiles,
      Surroundings.settingsFile, Surroundings.configDirectory, chainingSurroundings,
      FilePath.ofText_root]
    decide +kernel
  obtain ⟨b, hb, -⟩ := except_bind_eq_ok hrun
  exact ⟨b, hb, console_answers_lines hb, hrun⟩

end ChatCommands
