import NormalAlgorithm.Proofs.Program.Printed
import NormalAlgorithm.Proofs.Program.Wider
import NormalAlgorithm.Proofs.Run.Drained

/-!
# Resumed programs

A run can be given up at any of its texts and taken up again later: the text is encoded and put in
place of the initial one, in front of the same rules. It survives being encoded, cut, decoded and
measured, so that the program can be compiled again, and its run is the rest of the run that was
given up, if the limit on steps is lowered by the steps that were taken.

Results:
* `Program.compileWith_withInitial`: another initial text in front of the same statements.
* `Run.running_of_pull_text`: behind a text that no final rule has made, a run goes on.
* `account_resumed`: the resumed run, and the fixed points of a program.
-/

namespace NormalAlgorithm

/-! ## Another initial text -/

/-- The text of a program that starts from this text, with these statements behind. -/
def withInitial (initial rest : Text) : Text := "str ".toList ++ encode initial ++ ';' :: rest

theorem statements_withInitial (initial rest : Text) :
    statements (withInitial initial rest) = .initial (encode initial) :: statements rest := by
  have hsealed : Sealed endsStatement ("str ".toList ++ encode initial) :=
    .append (by decide) (sealed_encode (fun _ => isSpecial_of_endsStatement) initial)
  rw [statements, withInitial, split_of_sealed hsealed rfl (by decide), Pieces.toList,
    List.map_cons, Statement.read_initial, ← statements]

namespace Source

variable {limits : Limits} {s s' : Source}

theorem add_initial_encode (limits : Limits) (t : Text) :
    add limits {} (.initial (encode t)) = .ok { initial? := some t } := by
  simp [add, decodeOrFault_encode, bind, Except.bind, pure, Except.pure]

/-- Once there is an initial text, no statement gives one, and none looks at it. -/
theorem add_behind_initial {st : Statement} (hinitial : s.initial?.isSome = true)
    (h : s.add limits st = .ok s') (t : Text) :
    s'.initial? = s.initial? ∧ (∀ raw, .initial raw ≠ st) ∧
      add limits { s with initial? := some t } st = .ok { s' with initial? := some t } := by
  cases st with
  | initial raw =>
    rw [add, if_pos hinitial] at h
    cases h
  | rule r =>
    rw [add] at h ⊢
    split_ifs at h with hfull
    cases h
    exact ⟨rfl, by simp, if_neg hfull⟩
  | directive d =>
    rw [add] at h ⊢
    split_ifs at h with hfull
    cases h
    exact ⟨rfl, by simp, if_neg hfull⟩
  | unknown word => cases h
  | comment =>
    cases h
    exact ⟨rfl, by simp, rfl⟩

theorem addAll_behind_initial {sts : List Statement} (hinitial : s.initial?.isSome = true)
    (h : addAll limits s sts = .ok s') (t : Text) :
    s'.initial? = s.initial? ∧ (∀ raw, .initial raw ∉ sts) ∧
      addAll limits { s with initial? := some t } sts = .ok { s' with initial? := some t } := by
  induction sts generalizing s with
  | nil =>
    cases h
    exact ⟨rfl, by simp, rfl⟩
  | cons st sts ih =>
    rw [addAll, List.foldlM_cons] at h
    obtain ⟨between, hadd, hrest⟩ := bind_eq_ok_iff.mp h
    obtain ⟨hsame, hother, hadd'⟩ := add_behind_initial hinitial hadd t
    obtain ⟨hsames, hothers, hrest'⟩ := ih (hsame ▸ hinitial) hrest
    refine ⟨hsames.trans hsame, ?_, ?_⟩
    · intro raw hmem
      rcases List.mem_cons.mp hmem with heq | hmem
      · exact hother raw heq
      · exact hothers raw hmem
    · rw [addAll, List.foldlM_cons]
      exact bind_eq_ok_iff.mpr ⟨_, hadd', hrest'⟩

end Source

namespace Program

/-- A program that could be compiled gives an initial text only once. It can be compiled with any
    other that is not too long, and with any limit on steps, and nothing else changes in it. -/
theorem compileWith_withInitial {build : Builder} {limits : Limits} {initial rest : Text}
    {p : Program} (h : compileWith build limits (withInitial initial rest) = .ok p) {t : Text}
    (ht : units t ≤ limits.units) (n : Nat) :
    (∀ raw, .initial raw ∉ statements rest) ∧
      compileWith build { limits with steps := n } (withInitial t rest) =
        .ok { p with initial := t, limits := { limits with steps := n } } := by
  obtain ⟨s, raw, rules, hread, hexpand, hcompile, rfl⟩ := compileWith_eq_ok.mp h
  have hadd := (Source.read_eq_ok.mp hread).1
  rw [statements_withInitial, Source.addAll, List.foldlM_cons, Source.add_initial_encode] at hadd
  obtain ⟨-, hothers, hadd'⟩ := Source.addAll_behind_initial rfl hadd t
  have hread' : Source.read limits (withInitial t rest) = .ok { s with initial? := some t } := by
    refine Source.read_eq_ok.mpr ⟨?_, ht⟩
    rw [statements_withInitial, Source.addAll, List.foldlM_cons, Source.add_initial_encode]
    exact hadd'
  have hcompile' : compileWith build limits (withInitial t rest) = .ok
      (ofSource limits (withInitial t rest) { s with initial? := some t } rules) :=
    compileWith_eq_ok.mpr ⟨_, raw, rules, hread', hexpand, hcompile, rfl⟩
  refine ⟨hothers, ?_⟩
  rw [compileWith_of_steps hcompile' n]
  simp [ofSource, Source.initial, statements_withInitial]

end Program

/-! ## The state behind a text -/

namespace Run

theorem phase_of_pull_text {r r' : Run} {t : Text} (h : r.pull = (some (.ok t), r')) :
    r'.phase = .running ∨ r'.phase = .halted .finalRule := by
  cases pulled_of_pull h with
  | initial fresh => exact .inl rfl
  | @rewritten i t isFinal running left step =>
    cases isFinal with
    | true => exact .inr rfl
    | false => exact .inl rfl

/-- A run goes on behind a text that no final rule has made. -/
theorem running_of_pull_text {r r' : Run} {t : Text} (h : r.pull = (some (.ok t), r'))
    (hfinal : ∀ i, r'.lastRule = some i → ¬ r.program.EndsAt i) : r'.phase = .running := by
  cases pulled_of_pull h with
  | initial fresh => rfl
  | @rewritten i t isFinal running left step =>
    cases isFinal with
    | true => exact absurd ((Program.rewrites_of_step step).2.2.mp rfl) (hfinal i rfl)
    | false => rfl

/-- When only texts were handed out, the state tells how many, and which is the last. -/
theorem state_of_pulls_texts {p : Program} {r : Run} {earlier : List Text} {t : Text}
    (hsize : units p.initial ≤ p.limits.units)
    (h : p.start.pulls (earlier.length + 1) = ((earlier ++ [t]).map fun t => some (.ok t), r)) :
    r.program = p ∧ r.current = t ∧ r.steps = earlier.length ∧ units t ≤ p.limits.units ∧
      ∃ r₀ : Run, r₀.program = p ∧ r₀.pull = (some (.ok t), r) := by
  obtain ⟨texts, applied, hhistory⟩ := history_pulls hsize (earlier.length + 1)
  rw [h] at hhistory
  dsimp only at hhistory
  have hsnapshots := hhistory.snapshots_eq
  have hall : snapshots ((earlier ++ [t]).map fun t => some (.ok t)) = earlier ++ [t] := by
    simpa [itemsOf, Function.comp_def] using snapshots_itemsOf (earlier ++ [t]) none 0
  rw [hall] at hsnapshots
  split_ifs at hsnapshots with hfresh
  · simp at hsnapshots
  obtain ⟨rfl, rfl⟩ := List.append_singleton_inj.mp hsnapshots
  refine ⟨hhistory.program_eq, rfl, ?_, hhistory.size_le, (p.start.pulls earlier.length).2, ?_, ?_⟩
  · rw [hhistory.steps_eq, hhistory.derivation.length_eq]
  · exact pulls_program p.start earlier.length
  · rw [pulls_succ, List.map_append] at h
    obtain ⟨hanswers, hrun⟩ := Prod.mk.inj h
    have hanswer := (List.append_singleton_inj.mp hanswers).2
    exact Prod.ext hanswer hrun

/-- A run that has used up `n` steps, and one of the same rules that starts from its current text
    with `n` steps less, give the same from there on. -/
theorem account_of_restart {p : Program} {r : Run} (hprogram : r.program = p)
    (running : r.phase = .running) :
    (Run.mk { p with
        initial := r.current
        limits := { p.limits with steps := p.limits.steps - r.steps } }
      r.current 0 none .running).account = r.account := by
  subst hprogram
  exact account_of_alike ⟨rfl, rfl, rfl, rfl, running.symm⟩

/-- The last text of a run that has halted because no rule applies was reached with steps to
    spare, and no rule has a match in it. -/
theorem stuck_of_account {p : Program} {earlier : List Text} {t : Text}
    (hsize : units p.initial ≤ p.limits.units)
    (h : p.start.account = ⟨(earlier ++ [t]).map .ok, some .noRuleApplies⟩) :
    units t ≤ p.limits.units ∧ earlier.length < p.limits.steps ∧
      ∀ rule ∈ p.rules, ∀ m, ¬ rule.pattern.Decomposes t m := by
  obtain ⟨hitems, hhalt⟩ := Account.mk.inj h
  obtain ⟨r, hpulls, hlast⟩ := exists_pulls_items p.start
  rw [hitems, List.map_map, List.length_map, List.length_append, List.length_singleton] at hpulls
  obtain ⟨hprogram, hcurrent, hsteps, hshort, r₀, -, hpull⟩ := state_of_pulls_texts hsize hpulls
  refine ⟨hshort, ?_⟩
  generalize p.start.items.2 = final at hlast hhalt
  cases pulled_of_pull hlast with
  | stuck running left step =>
    rw [hprogram, hsteps] at left
    rw [hprogram, hcurrent] at step
    exact ⟨left, Program.step_eq_stuck_iff.mp step⟩
  | ended finished =>
    -- Behind a text, a run can have ended only by a final rule.
    rcases phase_of_pull_text hpull with running | final
    · simp [halt?, running] at hhalt
    · simp [halt?, final] at hhalt

/-- A run that starts where no rule has a match, with any step allowed, takes none. -/
theorem items_of_stuck {p : Program} (hleft : 0 < p.limits.steps)
    (hnone : ∀ rule ∈ p.rules, ∀ m, ¬ rule.pattern.Decomposes p.initial m) :
    p.start.items = ([.ok p.initial], { p.start with phase := .halted .noRuleApplies }) := by
  have hrunning : ({ p.start with phase := .running } : Run).pull =
      (none, { p.start with phase := .halted .noRuleApplies }) := by
    rw [pull_of_step rfl hleft]
    dsimp only [Program.start]
    rw [Program.step_eq_stuck_iff.mpr hnone]
  rw [items_of_item (pull_of_fresh rfl), items_of_done hrunning]
  rfl

end Run

/-! ## Resuming -/

/-- **A run can be resumed from any of its texts.** Let the program that starts from some text be
    compiled, whoever makes the matchers; then no statement behind gives another initial text.
    Behind each text that no final rule has made, the program that starts from this text, with the
    limit on steps lowered by the steps taken, can be compiled to the same rules, and its run gives
    the text and then all that the original run gives behind it. A text at which the run has halted
    because no rule applies is a fixed point: a run from there, with any step allowed, takes
    none. -/
theorem account_resumed {build : Builder} {limits : Limits} {initial rest : Text} {p : Program}
    (h : Program.compileWith build limits (withInitial initial rest) = .ok p) :
    (∀ raw, .initial raw ∉ statements rest) ∧
      (∀ earlier t r,
        p.start.pulls (earlier.length + 1) = ((earlier ++ [t]).map fun t => some (.ok t), r) →
        (∀ i, r.lastRule = some i → ¬ p.EndsAt i) →
        ∃ p', Program.compileWith build { limits with steps := limits.steps - earlier.length }
            (withInitial t rest) = .ok p' ∧ p'.rules = p.rules ∧
          ∃ behind : Account,
            p.start.account = ⟨(earlier ++ [t]).map .ok ++ behind.items, behind.halt?⟩ ∧
            p'.start.account = ⟨.ok t :: behind.items, behind.halt?⟩) ∧
      ∀ earlier t, p.start.account = ⟨(earlier ++ [t]).map .ok, some .noRuleApplies⟩ →
        earlier.length < limits.steps ∧
          ∀ n, 0 < n → ∃ p',
            Program.compileWith build { limits with steps := n } (withInitial t rest) = .ok p' ∧
              p'.rules = p.rules ∧ p'.start.account = ⟨[.ok t], some .noRuleApplies⟩ ∧
              p'.start.items.2.steps = 0 := by
  have hlimits := Program.limits_of_compileWith h
  have hsize := Program.units_initial_le h
  refine ⟨(Program.compileWith_withInitial h (t := []) (Nat.zero_le _) 0).1, ?_, ?_⟩
  · intro earlier t r hpulls hfinal
    obtain ⟨hprogram, rfl, hsteps, hshort, r₀, hbefore, hpull⟩ :=
      Run.state_of_pulls_texts hsize hpulls
    have running : r.phase = .running := Run.running_of_pull_text hpull (hbefore ▸ hfinal)
    rw [hlimits] at hshort
    have hcompile :=
      (Program.compileWith_withInitial h hshort (limits.steps - earlier.length)).2
    refine ⟨_, hcompile, rfl, r.account, ?_, ?_⟩
    · have hmap : (earlier ++ [r.current]).map (fun t => some (Except.ok t : Item)) =
          ((earlier ++ [r.current]).map .ok).map some := by
        rw [List.map_map]
        rfl
      rw [hmap] at hpulls
      exact Run.account_of_pulls hpulls
    · have hrestart := Run.account_of_restart hprogram running
      rw [hlimits, hsteps] at hrestart
      rw [Run.account_of_item (Run.pull_of_fresh rfl)]
      exact congrArg (fun a : Account => Account.mk (.ok r.current :: a.items) a.halt?) hrestart
  · intro earlier t haccount
    obtain ⟨hshort, hleft, hnone⟩ := Run.stuck_of_account hsize haccount
    rw [hlimits] at hshort hleft
    refine ⟨hleft, fun n hn => ?_⟩
    have hcompile := (Program.compileWith_withInitial h hshort n).2
    have hitems := Run.items_of_stuck
      (p := { p with initial := t, limits := { limits with steps := n } }) hn hnone
    refine ⟨_, hcompile, rfl, ?_, ?_⟩
    · rw [Run.account, hitems]
      rfl
    · rw [hitems]
      rfl

/-- A run over texts with semicolons, given up behind its first step and taken up again, and its
    last text, from which no limit on steps lets it go on. -/
theorem account_resumed_semicolons :
    ∃ p, Program.compile { steps := 3 } (withInitial "a;".toList "a=\\;b;b=".toList) = .ok p ∧
      (∃ p', Program.compile { steps := 2 } (withInitial ";b;".toList "a=\\;b;b=".toList) = .ok p' ∧
        p'.start.account = ⟨[.ok ";b;".toList, .ok ";;".toList], some .noRuleApplies⟩) ∧
      ∀ n, 0 < n → ∃ p', Program.compile { steps := n }
          (withInitial ";;".toList "a=\\;b;b=".toList) = .ok p' ∧
        p'.start.account = ⟨[.ok ";;".toList], some .noRuleApplies⟩ := by
  obtain ⟨p, hp⟩ : ∃ p, p = Program.mk "a;".toList [⟨.plain, ⟨"a".toList, []⟩, ⟨";b".toList, []⟩⟩,
    ⟨.plain, ⟨"b".toList, []⟩, ⟨[], []⟩⟩] { steps := 3 } ⟨3, 2, 0, 2⟩ := ⟨_, rfl⟩
  have hcompile : Program.compile { steps := 3 }
      (withInitial "a;".toList "a=\\;b;b=".toList) = .ok p := by
    rw [hp]
    rfl
  have hrun : p.start.account =
      ⟨[.ok "a;".toList, .ok ";b;".toList, .ok ";;".toList], some .noRuleApplies⟩ := by
    rw [hp, Run.account_of_item (i := .ok "a;".toList) rfl,
      Run.account_of_item (i := .ok ";b;".toList) rfl,
      Run.account_of_item (i := .ok ";;".toList) rfl, Run.account_of_done rfl]
    rfl
  obtain ⟨-, hresume, hfixed⟩ := account_resumed hcompile
  rw [hrun] at hresume hfixed
  refine ⟨p, hcompile, ?_, ?_⟩
  · have hpulls : ∃ r, p.start.pulls 2 =
        ([some (.ok "a;".toList), some (.ok ";b;".toList)], r) ∧ r.lastRule = some 0 := by
      rw [hp]
      exact ⟨_, rfl, rfl⟩
    obtain ⟨r, hr, hlast⟩ := hpulls
    have hgoesOn : ∀ i, r.lastRule = some i → ¬ p.EndsAt i := by
      rintro i hi ⟨rule, hrule, hfinal⟩
      rw [hlast, Option.some.injEq] at hi
      rw [hp, ← hi] at hrule
      cases hrule
      cases hfinal
    obtain ⟨p', hp', -, behind, haccount, hresumed⟩ :=
      hresume ["a;".toList] ";b;".toList r hr hgoesOn
    injection haccount with hitems hhalt
    have hbehind : [.ok ";;".toList] = behind.items := by simpa using hitems
    rw [← hbehind, ← hhalt] at hresumed
    exact ⟨p', hp', hresumed⟩
  · intro n hn
    obtain ⟨-, hrest⟩ := hfixed ["a;".toList, ";b;".toList] ";;".toList rfl
    obtain ⟨p', hp', -, haccount, -⟩ := hrest n hn
    exact ⟨p', hp', haccount⟩

end NormalAlgorithm
