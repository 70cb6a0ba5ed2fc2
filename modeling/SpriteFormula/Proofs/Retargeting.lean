import SpriteFormula.Proofs.DialectLayout

/-!
Rendering for a target language keeps the structure of an expression: although powers become calls
there, which changes the parentheses around and inside them, the text has one tree in the grammar of
the language, and it is that of the program.
-/

namespace SpriteFormula

/-- The text of a program that computes one value has one tree in the grammar of its language. The
tree computes the program, each constant with a sign as the negation of one without. -/
theorem retargeting_keeps_structure (language : Language) (program : Program)
    (writable : ∀ i ∈ program, i.WritableIn language.dialect)
    (balanced : program.validate = .ok 1) :
    ∃ text tree, program.render language.profile = .ok text ∧
      language.dialect.Derives .sum (language.dialect.scan text) tree [] ∧
      (∀ other, language.dialect.Derives .sum (language.dialect.scan text) other [] →
        other = tree) ∧
      tree.postfixOrder = program.flatMap Instruction.signSplit := by
  have accepted : Outline.Accepts language.profile.refuse program :=
    Outline.accepts_of_writableIn writable
  obtain ⟨tree, -, rfl⟩ :=
    Outline.readFrom_of_validate (pushes_of_writableIn writable) accepted balanced
  have hd := Dialect.derives_layout language.speaks writable 0
  refine ⟨_, tree.signSplit, Program.render_of_tree accepted, ?_, ?_,
    tree.postfixOrder_signSplit⟩
  · rwa [Dialect.scan, String.toList_ofList]
  · intro other ho
    rw [Dialect.scan, String.toList_ofList] at ho
    exact ho.unique hd

/-- The power of a constant with a sign, negated. -/
theorem negated_power_keeps_structure :
    let program : Program :=
      [.constant Binary64.half.neg, .var "x", .operator .pow, .negative]
    ∃ tree, program.render .c = .ok "-powf(-0.5f, x)" ∧
      Language.c.dialect.Derives .sum (Language.c.dialect.scan "-powf(-0.5f, x)") tree [] ∧
      tree.postfixOrder =
        [.constant .half, .negative, .var "x", .operator .pow, .negative] := by
  intro program
  have hx : Language.c.dialect.NamesVariable "x" :=
    ⟨Token.scan_of_isName (by decide), by decide⟩
  have writable : ∀ i ∈ program, i.WritableIn Language.c.dialect := by
    refine List.forall_mem_cons.mpr ⟨?_, List.forall_mem_cons.mpr ⟨hx, ?_⟩⟩
    · change Binary64.half.neg.isFinite
      decide
    · exact List.forall_mem_cons.mpr ⟨trivial, List.forall_mem_singleton.mpr trivial⟩
  obtain ⟨text, tree, hr, hd, -, hp⟩ :=
    retargeting_keeps_structure .c program writable (by decide)
  have ht : program.render .c = .ok "-powf(-0.5f, x)" := by decide +kernel
  obtain rfl : text = "-powf(-0.5f, x)" := Except.ok.inj (hr.symm.trans ht)
  refine ⟨tree, ht, hd, hp.trans ?_⟩
  decide

end SpriteFormula
