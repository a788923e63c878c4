import NormalAlgorithm.Proofs.Program.Printed
import NormalAlgorithm.Proofs.Program.Refused
import NormalAlgorithm.Proofs.Source.Contents

/-!
# Mixing statements

A program can be written down in many orders. The statement of the initial text may come last, the
directives may stand between the rules, and comments may stand anywhere. Only the order of the rules
among themselves and of the directives among themselves matters: it decides on priorities, and on
what a directive clones.

Results:
* `statements_joinStatements`: joined statements are cut into these statements again.
* `ofPart_joinStatements`: which statements of a part stand in the joined text.
* `Program.compileWith_alike`: sources that are read alike are compiled alike.
* `compile_reordered`: the order of statements of different parts does not matter.
-/

namespace NormalAlgorithm

/-! ## Joined statements -/

/-- The text of statements, each with the separator that stands in front of it. The first has
    nothing in front of it. -/
def joinStatements : List (Separator × Text) → Text
  | [] => []
  | x :: rest => x.2 ++ rest.flatMap fun y => y.1.char :: y.2

/-- Those of the texts that are statements of this part, in their order. -/
def textsOfPart (k : Part) (ts : List Text) : List Text :=
  ts.filter fun t => (Statement.read t).part? = some k

section

variable {xs : List (Separator × Text)}

theorem statements_joinStatements (hne : xs ≠ []) (hxs : ∀ x ∈ xs, Sealed endsStatement x.2) :
    statements (joinStatements xs) = (xs.map Prod.snd).map Statement.read := by
  cases xs with
  | nil => exact absurd rfl hne
  | cons x rest =>
    obtain ⟨hx, hrest⟩ := List.forall_mem_cons.mp hxs
    have hpairs : ∀ y ∈ rest.map fun y => (y.1.char, y.2),
        endsStatement y.1 = true ∧ y.1 ≠ '\\' ∧ Sealed endsStatement y.2 := by
      intro y hy
      obtain ⟨z, hz, rfl⟩ := List.mem_map.mp hy
      exact ⟨(endsStatement_char z.1).1, (endsStatement_char z.1).2, hrest z hz⟩
    have hsplit := split_interleave hx hpairs
    rw [List.flatMap_map] at hsplit
    rw [statements, joinStatements, hsplit]
    simp [Pieces.toList]

theorem ofPart_map_read (k : Part) (ts : List Text) :
    Statement.ofPart k (ts.map Statement.read) = (textsOfPart k ts).map Statement.read := by
  rw [Statement.ofPart, List.filter_map, textsOfPart]
  rfl

theorem ofPart_joinStatements (k : Part) (hxs : ∀ x ∈ xs, Sealed endsStatement x.2) :
    Statement.ofPart k (statements (joinStatements xs)) =
      (textsOfPart k (xs.map Prod.snd)).map Statement.read := by
  by_cases hnil : xs = []
  · -- Without statements, the text is empty, and that is a comment.
    rw [hnil]
    rfl
  · rw [statements_joinStatements hnil hxs, ofPart_map_read]

end

/-! ## Programs that differ in comments only -/

namespace Program

/-- The programs are the same, up to the number of statements in which they were written. -/
structure Alike (p p' : Program) : Prop where
  initial_eq : p.initial = p'.initial
  rules_eq : p.rules = p'.rules
  limits_eq : p.limits = p'.limits
  written_eq : p.counts.written = p'.counts.written
  directives_eq : p.counts.directives = p'.counts.directives
  expanded_eq : p.counts.expanded = p'.counts.expanded

/-- Both sources are refused, or they are compiled to programs that are alike. -/
inductive AlikeResults : Except Fault Program → Except Fault Program → Prop
  | refused (f f' : Fault) : AlikeResults (.error f) (.error f')
  | compiled {p p' : Program} (alike : p.Alike p') : AlikeResults (.ok p) (.ok p')

theorem alike_ofSource (limits : Limits) (t t' : Text) (s : Source) (rules : List Rule) :
    (ofSource limits t s rules).Alike (ofSource limits t' s rules) :=
  ⟨rfl, rfl, rfl, rfl, rfl, rfl⟩

/-- Behind its statements, nothing of a source is looked at but their number. -/
theorem compileWith_of_read {build : Builder} {limits : Limits} {t : Text} {s : Source}
    (h : Source.read limits t = .ok s) :
    compileWith build limits t =
      (expandAll limits.rules s.rules s.directives >>= List.mapM (RawRule.compileWith build)).map
        (ofSource limits t s) := by
  rw [compileWith, h]
  cases hexpand : expandAll limits.rules s.rules s.directives with
  | error f => simp [hexpand, bind, Except.bind, Except.map]
  | ok raw =>
    cases hrules : raw.mapM (RawRule.compileWith build) <;>
      simp [hexpand, hrules, bind, Except.bind, Except.map, pure, Except.pure]

theorem compileWith_alike {limits : Limits} {t t' : Text}
    (h : ∀ s, Source.read limits t = .ok s ↔ Source.read limits t' = .ok s) (build : Builder) :
    AlikeResults (compileWith build limits t) (compileWith build limits t') := by
  cases hread : Source.read limits t with
  | error f =>
    cases hread' : Source.read limits t' with
    | error f' =>
      rw [compileWith, hread, compileWith, hread']
      exact .refused f f'
    | ok s =>
      rw [(h s).mpr hread'] at hread
      cases hread
  | ok s =>
    rw [compileWith_of_read hread, compileWith_of_read ((h s).mp hread)]
    cases expandAll limits.rules s.rules s.directives >>=
        List.mapM (RawRule.compileWith build) with
    | error f => exact .refused f f
    | ok rules => exact .compiled (alike_ofSource limits t t' s rules)

end Program

/-! ## Main result -/

theorem read_joinStatements_iff {xs ys : List (Separator × Text)}
    (hxs : ∀ x ∈ xs, Sealed endsStatement x.2) (hys : ∀ y ∈ ys, Sealed endsStatement y.2)
    (hparts : ∀ k, textsOfPart k (xs.map Prod.snd) = textsOfPart k (ys.map Prod.snd))
    (limits : Limits) (s : Source) :
    Source.read limits (joinStatements xs) = .ok s ↔
      Source.read limits (joinStatements ys) = .ok s := by
  have hsame : ∀ k, Statement.ofPart k (statements (joinStatements xs)) =
      Statement.ofPart k (statements (joinStatements ys)) := by
    intro k
    rw [ofPart_joinStatements k hxs, hparts k, ofPart_joinStatements k hys]
  rw [Source.read_eq_ok, Source.read_eq_ok, Source.addAll_eq_ok_iff, Source.addAll_eq_ok_iff,
    Source.collects_congr hsame]

/-- **Only the order inside each part matters.** Let two lists of texts be given, each text sealed
    against semicolons and line feeds, so that it is one statement. Let the statements of the
    initial text be the same in both lists, in the same order, and likewise the rules, those with an
    unknown keyword among them, and the directives. However the two lists mix these statements,
    whatever comments stand between them, and whether semicolons or line feeds separate them: one
    joined text is compiled if and only if the other is, and the programs have the same initial
    text, the same rules, and the same numbers of rules as written, of directives, and of rules
    after expansion. The same holds where matchers for the keys have to be made, which may be
    refused for any reason. -/
theorem compile_reordered {xs ys : List (Separator × Text)}
    (hxs : ∀ x ∈ xs, Sealed endsStatement x.2) (hys : ∀ y ∈ ys, Sealed endsStatement y.2)
    (hparts : ∀ k, textsOfPart k (xs.map Prod.snd) = textsOfPart k (ys.map Prod.snd))
    (limits : Limits) :
    Program.AlikeResults (Program.compile limits (joinStatements xs))
        (Program.compile limits (joinStatements ys)) ∧
      ∀ build, Program.AlikeResults (Program.compileWith build limits (joinStatements xs))
        (Program.compileWith build limits (joinStatements ys)) := by
  have hread := read_joinStatements_iff hxs hys hparts limits
  constructor
  · rw [← Program.compileWith_accepting, ← Program.compileWith_accepting]
    exact Program.compileWith_alike hread _
  · exact Program.compileWith_alike hread

/-- A program, and the same program with its initial text last, with its directive first, with
    other comments, and with line feeds in place of semicolons. -/
theorem compile_reordered_mixed :
    ∃ xs ys : List (Separator × Text),
      joinStatements xs = "str abX;a=X;remark;b\\;=\\\n;rep X=1,2;fin aX=.".toList ∧
      joinStatements ys = "rep X=1,2\na=X\nb\\;=\\\n\n\n\nfin aX=.\nstr abX".toList ∧
      (∀ x ∈ xs, Sealed endsStatement x.2) ∧ (∀ y ∈ ys, Sealed endsStatement y.2) ∧
      (∀ k, textsOfPart k (xs.map Prod.snd) = textsOfPart k (ys.map Prod.snd)) ∧
      ∃ p p', Program.compile {} (joinStatements xs) = .ok p ∧
        Program.compile {} (joinStatements ys) = .ok p' ∧ p.Alike p' := by
  obtain ⟨xs, hxs⟩ : ∃ xs : List (Separator × Text), xs =
    (["str abX", "a=X", "remark", "b\\;=\\\n", "rep X=1,2", "fin aX=."].map String.toList).map
      (Separator.semicolon, ·) := ⟨_, rfl⟩
  obtain ⟨ys, hys⟩ : ∃ ys : List (Separator × Text), ys =
    (["rep X=1,2", "a=X", "b\\;=\\\n", "", "", "fin aX=.", "str abX"].map String.toList).map
      (Separator.lineFeed, ·) := ⟨_, rfl⟩
  have hsealedXs : ∀ x ∈ xs, Sealed endsStatement x.2 := by
    rw [hxs]
    decide
  have hsealedYs : ∀ y ∈ ys, Sealed endsStatement y.2 := by
    rw [hys]
    decide
  have hparts : ∀ k, textsOfPart k (xs.map Prod.snd) = textsOfPart k (ys.map Prod.snd) := by
    rw [hxs, hys]
    intro k
    cases k <;> rfl
  obtain ⟨p, hp⟩ : ∃ p, Program.compile {} (joinStatements xs) = .ok p := by
    rw [hxs]
    exact ⟨_, rfl⟩
  have hresults := (compile_reordered hsealedXs hsealedYs hparts {}).1
  rw [hp] at hresults
  cases hp' : Program.compile {} (joinStatements ys) with
  | error f =>
    rw [hp'] at hresults
    cases hresults
  | ok p' =>
    rw [hp'] at hresults
    cases hresults with
    | compiled alike =>
      exact ⟨xs, ys, by rw [hxs]; rfl, by rw [hys]; rfl, hsealedXs, hsealedYs, hparts, p, p', hp,
        hp', alike⟩

end NormalAlgorithm
