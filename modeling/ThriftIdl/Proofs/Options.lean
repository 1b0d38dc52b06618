import ThriftIdl.Options

/-!
# Names after options

Arguments that do not begin with a dash are names (`CommandForm.sort_append`), and names that follow
options are given to the command, whatever the options are, unless the options have names of their own
(`CommandForm.start_append`): options act before the names behind them are looked at, and two dashes
among them have nothing but names behind them, so that names are still admitted.
-/
namespace ThriftIdl

variable {σ : Type}

/-- A text that is sorted as a name wherever it stands. -/
def IsPlainName (text : List Char) : Prop := text.head? ≠ some '-'

/-- An argument that is a name. -/
def Argument.IsName (argument : Argument σ) : Prop := ∃ text, argument = .name text

/-- Nothing but names stands behind a divider. -/
def Divided : List (Argument σ) → Prop
  | [] => True
  | .divider :: arguments => ∀ argument ∈ arguments, argument.IsName
  | _ :: arguments => Divided arguments

/-- Names are divided from nothing. -/
theorem divided_of_names {arguments : List (Argument σ)}
    (names : ∀ argument ∈ arguments, argument.IsName) : Divided arguments := by
  induction arguments with
  | nil => trivial
  | cons argument arguments ih =>
    obtain ⟨⟨_, rfl⟩, others⟩ := List.forall_mem_cons.1 names
    exact ih others

/-- Arguments without a divider may stand before others. -/
theorem Divided.append {first second : List (Argument σ)} (none : .divider ∉ first)
    (divided : Divided second) : Divided (first ++ second) := by
  induction first with
  | nil => exact divided
  | cons argument first ih =>
    have others : .divider ∉ first := fun mem => none (List.mem_cons_of_mem _ mem)
    cases argument with
    | divider => exact absurd List.mem_cons_self none
    | _ => exact ih others

/-- As long as there are no names the command admits some: none were given, or those that are given now
have not ended. -/
def Intake.Admits (intake : Intake σ) (arguments : List (Argument σ)) : Prop :=
  intake.files = [] →
    intake.names = .none ∨ intake.names = .current ∧ ∀ argument ∈ arguments, argument.IsName

/-- Where something other than a name is next, no names were given so far if there are none. -/
theorem Intake.Admits.close {intake : Intake σ} {argument : Argument σ}
    {arguments more : List (Argument σ)} (admits : intake.Admits (argument :: arguments))
    (other : ¬ argument.IsName) : intake.close.Admits more := by
  intro none
  rcases admits none with fresh | ⟨-, names⟩
  · exact .inl (by simp [Intake.close, fresh])
  · exact absurd (names _ List.mem_cons_self) other

/-- Where a name or a divider is next, names are taken. -/
theorem Intake.Admits.take {intake : Intake σ} {names : List (List Char)} {text : List Char}
    {argument : Argument σ} {arguments : List (Argument σ)}
    (admits : intake.Admits (argument :: arguments))
    (behind : names = [] → ∀ argument ∈ arguments, argument.IsName) :
    (if intake.names ≠ .closed then intake.take names else intake.leave text).Admits arguments := by
  split
  next =>
    intro none
    obtain ⟨-, empty⟩ := List.append_eq_nil_iff.1 none
    exact .inr ⟨rfl, behind empty⟩
  next closed =>
    intro none
    rcases admits none with fresh | ⟨current, -⟩
    · simp [fresh] at closed
    · simp [current] at closed

/-- An option that acts changes the settings and nothing else. -/
theorem OptionForm.exists_of_act {option : OptionForm σ} {value : List Char} {intake reached : Intake σ}
    (acted : option.act value intake = .ok reached) :
    ∃ settings, reached = { intake with settings := settings } := by
  rw [act] at acted
  split at acted
  · cases acted
  · exact ⟨_, (Except.ok.inj acted).symm⟩
  · split at acted
    · exact ⟨_, (Except.ok.inj acted).symm⟩
    · cases acted
  · split at acted
    · exact ⟨_, (Except.ok.inj acted).symm⟩
    · cases acted

namespace CommandForm

variable {form : CommandForm σ} {arguments more : List (Argument σ)} {intake reached : Intake σ}

/-- How arguments act one after the other, if none of them is refused. -/
inductive Acts (form : CommandForm σ) : List (Argument σ) → Intake σ → Intake σ → Prop where
  /-- There are no more arguments. -/
  | done {intake : Intake σ} : Acts form [] intake intake
  /-- A name is taken where the command admits names. -/
  | name {text : List Char} {arguments : List (Argument σ)} {intake reached : Intake σ} :
      Acts form arguments (if form.takesFiles && intake.names ≠ .closed then intake.take [text]
        else intake.leave text) reached → Acts form (.name text :: arguments) intake reached
  /-- A divider is taken where the command admits names. -/
  | divider {arguments : List (Argument σ)} {intake reached : Intake σ} :
      Acts form arguments (if form.takesFiles && intake.names ≠ .closed then intake.take []
        else intake.leave ['-', '-']) reached → Acts form (.divider :: arguments) intake reached
  /-- An option that is not known is left over. -/
  | unknown {text : List Char} {arguments : List (Argument σ)} {intake reached : Intake σ} :
      Acts form arguments (intake.close.leave text) reached →
        Acts form (.unknown text :: arguments) intake reached
  /-- An option has its value in the same argument. -/
  | valued {option : OptionForm σ} {value : List Char} {arguments : List (Argument σ)}
      {intake middle reached : Intake σ} : option.act value intake.close = .ok middle →
        Acts form arguments middle reached →
          Acts form (.option option (some value) :: arguments) intake reached
  /-- An option has its value in the next argument. -/
  | valueNext {option : OptionForm σ} {value : List Char} {arguments : List (Argument σ)}
      {intake middle reached : Intake σ} : option.effect.takesValue →
        option.act value intake.close = .ok middle → Acts form arguments middle reached →
          Acts form (.option option none :: .name value :: arguments) intake reached
  /-- An option has no value. -/
  | switch {option : OptionForm σ} {arguments : List (Argument σ)} {intake middle reached : Intake σ} :
      option.effect.takesValue = false → option.act [] intake.close = .ok middle →
        Acts form arguments middle reached → Acts form (.option option none :: arguments) intake reached

/-- Arguments that act one after the other lead where the command leads. -/
theorem Acts.act (acts : Acts form arguments intake reached) :
    form.act arguments intake = .ok reached := by
  induction acts with
  | done => rfl
  | name _ ih => exact ih
  | divider _ ih => exact ih
  | unknown _ ih => exact ih
  | valued acted _ ih =>
    rw [CommandForm.act, acted]
    exact ih
  | valueNext takes acted _ ih =>
    rw [CommandForm.act, if_pos takes, acted]
    exact ih
  | switch takes acted _ ih =>
    unfold CommandForm.act
    rw [if_neg (by simp [takes]), acted]
    exact ih

/-- Where a command does not refuse arguments, they act one after the other. -/
theorem acts_of_act (acted : form.act arguments intake = .ok reached) :
    Acts form arguments intake reached := by
  fun_induction CommandForm.act form arguments intake with
  | case1 => exact Except.ok.inj acted ▸ .done
  | case2 _ _ _ ih => exact .name (ih acted)
  | case3 _ _ ih => exact .divider (ih acted)
  | case4 _ _ _ ih => exact .unknown (ih acted)
  | case5 => cases acted
  | case6 option value _ intake ih =>
    cases done : option.act value intake.close with
    | error => simp [done, bind, Except.bind] at acted
    | ok middle => exact .valued done (ih middle (by simpa [done, bind, Except.bind] using acted))
  | case7 option intake takes value _ ih =>
    cases done : option.act value intake.close with
    | error => simp [done, bind, Except.bind] at acted
    | ok middle =>
      exact .valueNext takes done (ih middle (by simpa [done, bind, Except.bind] using acted))
  | case8 => cases acted
  | case9 option _ intake takes ih =>
    cases done : option.act [] intake.close with
    | error => simp [done, bind, Except.bind] at acted
    | ok middle =>
      exact .switch (by simpa using takes) done (ih middle (by simpa [done, bind, Except.bind] using acted))

/-- What stands behind arguments that act does not matter to them. -/
theorem Acts.append {last : Intake σ} (first : Acts form arguments intake reached)
    (second : Acts form more reached last) : Acts form (arguments ++ more) intake last := by
  induction first with
  | done => exact second
  | name _ ih => exact .name (ih second)
  | divider _ ih => exact .divider (ih second)
  | unknown _ ih => exact .unknown (ih second)
  | valued acted _ ih => exact .valued acted (ih second)
  | valueNext takes acted _ ih => exact .valueNext takes acted (ih second)
  | switch takes acted _ ih => exact .switch takes acted (ih second)

/-- Whatever acts while the command admits names, it still admits some afterwards. -/
theorem Acts.admits (files : form.takesFiles) (acts : Acts form arguments intake reached)
    (divided : Divided arguments) (admits : intake.Admits arguments) : reached.Admits [] := by
  have after {option : OptionForm σ} {value : List Char} {intake middle : Intake σ}
      {arguments : List (Argument σ)} (acted : option.act value intake.close = .ok middle)
      (admits : intake.close.Admits arguments) : middle.Admits arguments := by
    obtain ⟨settings, rfl⟩ := OptionForm.exists_of_act acted
    exact admits
  induction acts with
  | done => exact admits
  | name _ ih =>
    rw [files, Bool.true_and] at ih
    simp only [decide_eq_true_eq] at ih
    exact ih divided (admits.take nofun)
  | divider _ ih =>
    rw [files, Bool.true_and] at ih
    simp only [decide_eq_true_eq] at ih
    exact ih (divided_of_names divided) (admits.take fun _ => divided)
  | unknown _ ih => exact ih divided (admits.close (by rintro ⟨_, ⟨⟩⟩))
  | valued acted _ ih => exact ih divided (after acted (admits.close (by rintro ⟨_, ⟨⟩⟩)))
  | valueNext _ acted _ ih => exact ih divided (after acted (admits.close (by rintro ⟨_, ⟨⟩⟩)))
  | switch _ acted _ ih => exact ih divided (after acted (admits.close (by rintro ⟨_, ⟨⟩⟩)))

/-! ### Sorting -/

section Single

variable {option : OptionForm σ} {argument text : List Char}

/-- There is no divider in a group of short options. -/
theorem divider_not_mem_group (sorted : form.group option text = .ok arguments) :
    .divider ∉ arguments := by
  fun_induction group form option text generalizing arguments with
  | case1 => exact Except.ok.inj sorted ▸ by simp
  | case2 | case4 => cases sorted
  | case3 => exact Except.ok.inj sorted ▸ by simp
  | case5 => exact Except.ok.inj sorted ▸ by simp
  | case6 _ _ _ next head tail _ ih =>
    cases others : form.group next (head :: tail) with
    | error => rw [others] at sorted; cases sorted
    | ok more =>
      rw [others] at sorted
      rw [← Except.ok.inj sorted]
      simpa using ih others

/-- There is no divider in an argument that may be a group of short options. -/
theorem divider_not_mem_grouped : .divider ∉ form.grouped option text := by
  rw [grouped]
  split
  next sorted => exact divider_not_mem_group sorted
  next => simp

/-- There is no divider in an option with its value. -/
theorem divider_not_mem_valued : .divider ∉ valued option text := by
  rw [valued]
  split <;> simp

/-- There is no divider in an argument that is not known. -/
theorem divider_not_mem_sortUnknown : .divider ∉ (sortUnknown argument : List (Argument σ)) := by
  rw [sortUnknown]
  split <;> simp

/-- There is no divider in a long option. -/
theorem divider_not_mem_long (sorted : form.long argument = .ok (some arguments)) :
    .divider ∉ arguments := by
  rw [long] at sorted
  split at sorted
  · cases sorted
  · split at sorted
    · exact Option.some.inj (Except.ok.inj sorted) ▸ by simp
    · exact Option.some.inj (Except.ok.inj sorted) ▸ divider_not_mem_valued
  · cases sorted

/-- No single argument is sorted as a divider. -/
theorem divider_not_mem_sortOne (sorted : form.sortOne argument = .ok arguments) :
    .divider ∉ arguments := by
  unfold sortOne at sorted
  split at sorted
  next c text =>
    split at sorted
    next => exact Except.ok.inj sorted ▸ by simp
    next =>
      dsimp only at sorted
      split at sorted
      next =>
        rw [← Except.ok.inj sorted]
        split
        · exact divider_not_mem_valued
        · exact divider_not_mem_grouped
      next =>
        split at sorted
        next =>
          cases found : form.long ('-' :: c :: text) with
          | error => rw [found] at sorted; cases sorted
          | ok found' =>
            rw [found] at sorted
            rw [← Except.ok.inj sorted]
            cases found' with
            | none => exact divider_not_mem_sortUnknown
            | some => exact divider_not_mem_long found
        next =>
          split at sorted <;> rw [← Except.ok.inj sorted]
          · exact divider_not_mem_grouped
          · exact divider_not_mem_sortUnknown
  next => exact Except.ok.inj sorted ▸ by simp

end Single

/-- Behind an argument that is no divider sorting goes on. -/
theorem sort_cons_eq_ok_iff {argument : List Char} {texts : List (List Char)}
    (other : argument ≠ ['-', '-']) :
    form.sort (argument :: texts) = .ok arguments ↔
      ∃ first others, form.sortOne argument = .ok first ∧ form.sort texts = .ok others ∧
        arguments = first ++ others := by
  rw [sort]
  · cases form.sortOne argument with
    | error => simp [bind, Except.bind]
    | ok first => cases form.sort texts <;> simp [bind, Except.bind, pure, Except.pure, eq_comm]
  · exact other

/-- Nothing but names stands behind a divider that arguments are sorted with. -/
theorem divided_of_sort {texts : List (List Char)} (sorted : form.sort texts = .ok arguments) :
    Divided arguments := by
  induction texts generalizing arguments with
  | nil => exact Except.ok.inj sorted ▸ trivial
  | cons argument texts ih =>
    by_cases divider : argument = ['-', '-']
    · subst divider
      rw [← Except.ok.inj sorted]
      simp [Divided, Argument.IsName]
    · obtain ⟨first, others, single, behind, rfl⟩ := (sort_cons_eq_ok_iff divider).1 sorted
      exact (ih behind).append (divider_not_mem_sortOne single)

/-- Plain names are sorted as names. -/
theorem sort_names {names : List (List Char)} (plain : ∀ name ∈ names, IsPlainName name) :
    form.sort names = .ok (names.map .name) := by
  induction names with
  | nil => rfl
  | cons name names ih =>
    obtain ⟨here, others⟩ := List.forall_mem_cons.1 plain
    have other : name ≠ ['-', '-'] := by
      rintro rfl
      exact here rfl
    refine (sort_cons_eq_ok_iff other).2 ⟨[.name name], _, ?_, ih others, rfl⟩
    unfold sortOne
    split
    next => exact absurd rfl here
    next => rfl

/-- Names behind other arguments are sorted as names. -/
theorem sort_append {texts names : List (List Char)} (sorted : form.sort texts = .ok arguments)
    (plain : ∀ name ∈ names, IsPlainName name) :
    form.sort (texts ++ names) = .ok (arguments ++ names.map .name) := by
  induction texts generalizing arguments with
  | nil => exact Except.ok.inj sorted ▸ sort_names plain
  | cons argument texts ih =>
    by_cases divider : argument = ['-', '-']
    · subst divider
      rw [← Except.ok.inj sorted]
      show Except.ok (Argument.divider :: (texts ++ names).map Argument.name) = _
      rw [List.map_append]
      rfl
    · obtain ⟨first, others, single, behind, rfl⟩ := (sort_cons_eq_ok_iff divider).1 sorted
      exact (sort_cons_eq_ok_iff divider).2
        ⟨first, _, single, ih behind, List.append_assoc _ _ _⟩

/-- Names are taken where the command admits some. -/
theorem exists_acts_names (files : form.takesFiles) (admits : intake.names ≠ .closed)
    (names : List (List Char)) :
    ∃ last, Acts form (names.map .name) intake last ∧ last.files = intake.files ++ names ∧
      last.settings = intake.settings ∧ last.extras = intake.extras := by
  induction names generalizing intake with
  | nil => exact ⟨intake, .done, by simp, rfl, rfl⟩
  | cons name names ih =>
    have current : (intake.take [name]).names ≠ .closed := nofun
    obtain ⟨last, acts, taken, settings, extras⟩ := ih current
    refine ⟨last, .name ?_, ?_, settings, extras⟩
    · simpa [files, admits] using acts
    · rw [taken]
      simp [Intake.take]

/-- How arguments are accepted. -/
theorem start_eq_ok_iff {texts : List String} {settings : σ} {names : List (List Char)} :
    form.start texts = .ok (settings, names) ↔ ∃ sorted reached,
      form.sort (texts.map String.toList) = .ok sorted ∧
      form.act sorted ⟨form.standard, [], .none, []⟩ = .ok reached ∧ reached.extras = [] ∧
      reached.settings = settings ∧ reached.files = names := by
  rw [start, read]
  cases form.sort (texts.map String.toList) with
  | error fault =>
    have refused : (Except.error fault : Except UsageFault (List (Argument σ))).mapError Stop.usage =
        .error (.usage fault) := rfl
    simp [bind, Except.bind, refused]
  | ok sorted =>
    have accepted : (Except.ok sorted : Except UsageFault (List (Argument σ))).mapError Stop.usage =
        .ok sorted := rfl
    simp only [bind, Except.bind, accepted]
    cases acted : form.act sorted ⟨form.standard, [], .none, []⟩ with
    | error stop => cases stop <;> simp [acted]
    | ok reached =>
      cases left : reached.extras <;>
        simp [acted, left, pure, Except.pure, throw, throwThe, MonadExceptOf.throw]

/-- Names that follow options without names are the names of the command. -/
theorem start_append {options names : List String} {settings : σ} (files : form.takesFiles)
    (started : form.start options = .ok (settings, []))
    (plain : ∀ name ∈ names, IsPlainName name.toList) :
    form.start (options ++ names) = .ok (settings, names.map String.toList) := by
  obtain ⟨sorted, reached, sorts, acted, none, rfl, empty⟩ := start_eq_ok_iff.1 started
  have admitted : reached.Admits [] :=
    (acts_of_act acted).admits files (divided_of_sort sorts) fun _ => .inl rfl
  have admits : reached.names ≠ .closed := by
    intro closed
    rcases admitted empty with fresh | ⟨current, -⟩
    · rw [fresh] at closed
      cases closed
    · rw [current] at closed
      cases closed
  obtain ⟨last, acts, taken, same, extras⟩ :=
    exists_acts_names files admits (names.map String.toList)
  refine start_eq_ok_iff.2 ⟨_, last, ?_, ((acts_of_act acted).append acts).act, ?_, same, ?_⟩
  · rw [List.map_append]
    exact sort_append sorts (List.forall_mem_map.2 plain)
  · rw [extras, none]
  · rw [taken, empty, List.nil_append]

end CommandForm

end ThriftIdl
