import MiniPascal.Proofs.Reading.Lazy

/-!
# Proofs — Reading — Viable

Faults are found as early as they can be.  The kinds of the tokens before a fault begin a sentence
of the grammar, and with the token that the grammar is at fault at they begin none
(`Program.read_fault`).  The first half is what the reader of programs recognizes.  For the second,
tokens of a sentence that begins with those pulled would be read up to the same fault, as reading
does not look further (`exists_pulled`); but what derives a program is read, or is nested too deep.
-/

namespace MiniPascal

/-! ### Spellings of kinds -/

/-- A token that is written as its kind is, if that is its only lexeme. -/
theorem Token.Kind.wellSpelled_text {kind : Token.Kind} (h : kind.Spells kind.text.toList)
    (hnumber : ¬ (kind = .integerConst ∨ kind = .realConst)) :
    Token.WellSpelled ⟨kind, kind.text, .none⟩ :=
  ⟨h, fun hkind => absurd hkind hnumber⟩

/-- Every kind but the end has a token of a text. -/
theorem Token.Kind.exists_wellSpelled {kind : Token.Kind} (h : kind ≠ .eof) :
    ∃ t : Token, t.WellSpelled ∧ t.kind = kind := by
  cases kind with
  | eof => exact absurd rfl h
  | identifier =>
      have hspells : Token.Kind.identifier.Spells ['x'] :=
        ⟨⟨'x', [], rfl, by decide, List.forall_mem_nil _⟩, by decide⟩
      exact ⟨⟨.identifier, "x", .none⟩, ⟨hspells, nofun⟩, rfl⟩
  | integerConst =>
      have hspells : Token.Kind.integerConst.Spells ['1'] :=
        ⟨List.cons_ne_nil _ _, List.forall_mem_singleton.2 rfl⟩
      have hrange : (Number.ofLexeme? .integerConst "1".toList).isSome = true := by decide
      exact ⟨⟨.integerConst, "1", .none⟩, ⟨hspells, fun _ => hrange⟩, rfl⟩
  | realConst =>
      have hspells : Token.Kind.realConst.Spells ['1', '.'] :=
        ⟨['1'], [], rfl, List.cons_ne_nil _ _, List.forall_mem_singleton.2 rfl,
          List.forall_mem_nil _⟩
      have hrange : (Number.ofLexeme? .realConst "1.".toList).isSome = true := by decide +kernel
      exact ⟨⟨.realConst, "1.", .none⟩, ⟨hspells, fun _ => hrange⟩, rfl⟩
  | _ =>
      refine ⟨_, wellSpelled_text ?_ ?_, rfl⟩
      · rfl
      · exact nofun

theorem exists_wellSpelled {ks : List Token.Kind} (h : .eof ∉ ks) :
    ∃ w : List Token, (∀ t ∈ w, t.WellSpelled) ∧ w.map (·.kind) = ks := by
  induction ks with
  | nil => exact ⟨[], List.forall_mem_nil _, rfl⟩
  | cons k ks ih =>
      obtain ⟨hk, hks⟩ := not_or.1 (fun hmem => h (List.mem_cons.2 hmem))
      obtain ⟨t, ht, rfl⟩ := Token.Kind.exists_wellSpelled (Ne.symm hk)
      obtain ⟨w, hw, rfl⟩ := ih hks
      exact ⟨t :: w, List.forall_mem_cons.2 ⟨ht, hw⟩, rfl⟩

/-- The tokens in front of another result of an input are well spelled. -/
theorem IsStream.wellSpelled {w : List Token} {r : Pulled} {rs : List Pulled}
    (h : IsStream (w.map .ok ++ r :: rs)) :
    (∀ t ∈ w, t.WellSpelled) ∧ IsStream (r :: rs) := by
  induction w with
  | nil => exact ⟨List.forall_mem_nil _, h⟩
  | cons t w ih =>
      rw [List.map_cons, List.cons_append] at h
      generalize hrest : w.map .ok ++ r :: rs = rest at h
      cases h with
      | finish => cases w <;> cases hrest
      | token ht h =>
          subst hrest
          obtain ⟨hw, hr⟩ := ih h
          exact ⟨List.forall_mem_cons.2 ⟨ht, hw⟩, hr⟩

/-- The first tokens of an input whose kinds begin a sentence are the first tokens of a program with
the end behind it. -/
theorem Viable.exists_program {w : List Token} {t : Token} {after : List Pulled}
    (h : Viable ((w ++ [t]).map (·.kind))) (hstream : IsStream ((w ++ [t]).map .ok ++ after)) :
    ∃ v n p depth more, (∀ u ∈ v, u.WellSpelled) ∧ IsProgram v p depth ∧
      v ++ [Token.eof n] = (w ++ [t]) ++ more := by
  obtain ⟨_, ⟨v, p, depth, hv, rfl⟩, hprefix⟩ := h
  obtain ⟨hnoEnd, hrespell⟩ := hv.inAnySpelling
  rw [List.map_append, List.append_assoc] at hstream
  obtain ⟨hw, ht⟩ := IsStream.wellSpelled hstream
  rcases List.prefix_concat_iff.1 hprefix with heq | ⟨ks, hks⟩
  · -- The sentence goes no further, so `t` is its end and `w` its program.
    rw [List.map_append] at heq
    obtain ⟨hkinds, hend⟩ := List.append_inj' heq rfl
    obtain ⟨q, depth', hq⟩ := hrespell w hkinds
    have hk : t.kind = .eof := (List.cons.inj hend).1
    cases ht with
    | @finish n => exact ⟨w, n, q, depth', [], hw, hq, (List.append_nil _).symm⟩
    | token ht _ => exact absurd hk ht.kind_ne_eof
  · -- The sentence goes on, and what is left of it can be spelled.
    have hne : ∀ k ∈ (w ++ [t]).map (·.kind) ++ ks, k ≠ .eof := by
      rw [hks]
      exact List.forall_mem_map.2 hnoEnd
    have hend : .eof ∉ ks := fun hmem => hne _ (List.mem_append_right _ hmem) rfl
    obtain ⟨u, hu, rfl⟩ := exists_wellSpelled hend
    obtain ⟨q, depth', hq⟩ := hrespell (w ++ [t] ++ u) (by rw [List.map_append, hks])
    have hspelled : t.WellSpelled := by
      cases ht with
      | finish => exact absurd rfl (hne .eof (by simp [Token.eof]))
      | token ht _ => exact ht
    refine ⟨w ++ [t] ++ u, 0, q, depth', u ++ [.eof 0], ?_, hq, by rw [List.append_assoc]⟩
    exact List.forall_mem_append.2
      ⟨List.forall_mem_append.2 ⟨hw, List.forall_mem_singleton.2 hspelled⟩, hu⟩

/-- What is told of a token where something else was expected ends with the token. -/
theorem GrammarFault.text_expected (what : Expected) (t : Token) :
    (GrammarFault.expected what t).text =
      "expected " ++ what.text ++ ", " ++ "found " ++ t.shown := by
  have hassoc : "expected " ++ what.text ++ ", " ++ "found " =
      "expected " ++ what.text ++ ", found " := String.append_assoc
  exact congrArg (· ++ t.shown) hassoc.symm

namespace Program

/-- The token that something else was expected at does not go on with a sentence. -/
theorem not_viable {rs : List Pulled} {w : List Token} {t : Token} {what : Expected}
    {span : Span} (hstream : IsStream rs) (hrs : rs = (w ++ [t]).map .ok ++ (readFrom rs).2)
    (hread : ofResults rs = .error ⟨.grammar (.expected what t), span⟩) :
    ¬ Viable ((w ++ [t]).map (·.kind)) := by
  intro hviable
  obtain ⟨v, n, p, depth, more, hv, hp, hmore⟩ := hviable.exists_program (hrs ▸ hstream)
  obtain ⟨pulled, hpulled, hdraws⟩ := exists_pulled hstream
  obtain rfl : pulled = (w ++ [t]).map .ok := List.append_cancel_right (hpulled.symm.trans hrs)
  -- The program is read up to the same fault.
  have hfault : ofResults ((v ++ [Token.eof n]).map .ok) =
      .error ⟨.grammar (.expected what t), span⟩ := by
    rw [hmore, List.map_append, ← readFrom_fst, hdraws, hread]
  obtain ⟨hfits, hdeep⟩ := ofResults_of_isProgram hv n hp
  by_cases hf : Fits nestingLimit depth p.values
  · rw [hfits hf] at hfault
    cases hfault
  · obtain ⟨span', hspan⟩ := hdeep hf
    rw [hspan] at hfault
    cases hfault

/-- **Faults are found as early as they can be.**  A grammatical fault other than that of too deep
a nesting is blamed on the last token pulled, and its text ends with that token: the kinds of the
tokens before it begin a sentence of the grammar, and with its own they begin none.  The kinds of
the tokens before a lexical fault begin a sentence. -/
theorem read_fault {s : String} {f : Located ReadingFault} (h : read s = .error f)
    (hdeep : f.cause ≠ .grammar .tooDeep) :
    (f.readingReport.category = .grammar → ∃ (before : List Token) (t : Token) (after : List Pulled)
      (front : String),
      (Input.ofString s).results = (before ++ [t]).map .ok ++ after ∧
      readFrom (Input.ofString s).results = (.error f, after) ∧
      f.span.offset = t.span.offset ∧
      f.readingReport.text = front ++ "found " ++ t.shown ∧
      Viable (before.map (·.kind)) ∧ ¬ Viable ((before ++ [t]).map (·.kind))) ∧
    (f.readingReport.category = .lexical → ∃ (before : List Token) (fault : Located LexicalFault)
      (after : List Pulled),
      (Input.ofString s).results = before.map .ok ++ .error fault :: after ∧
      f = fault.map .lexical ∧ Viable (before.map (·.kind))) := by
  have hstream := (Input.ofString s).isStream_results
  have hread : readFrom (Input.ofString s).results =
      (.error f, (readFrom (Input.ofString s).results).2) :=
    Prod.ext ((readFrom_fst _).trans h) rfl
  cases stops hstream h with
  | @grammar before t cause hrs hbegins hcause =>
      refine ⟨fun _ => ?_, nofun⟩
      obtain ⟨what, rfl⟩ := hcause.resolve_left fun hc => hdeep (congrArg _ hc)
      exact ⟨before, t, _, _, hrs, hread, rfl, GrammarFault.text_expected what t, hbegins.viable,
        not_viable hstream hrs h⟩
  | @lexical before fault hrs hbegins =>
      exact ⟨nofun, fun _ => ⟨before, fault, _, hrs, rfl, hbegins.viable⟩⟩

/-- A name that follows the name of a program is at fault. -/
theorem read_fault_example :
    ∃ f, read "PROGRAM T x" = .error f ∧ f.cause ≠ .grammar .tooDeep ∧
      f.readingReport.category = .grammar ∧
      f.readingReport.text = "expected ';' after program name, found 'x'" ∧
      Viable [.programWord, .identifier] ∧
      ¬ Viable [.programWord, .identifier, .identifier] := by
  have hs : scan "PROGRAM T x" = .ok [⟨.programWord, "PROGRAM", ⟨0, 7⟩⟩,
      ⟨.identifier, "T", ⟨8, 1⟩⟩, ⟨.identifier, "x", ⟨10, 1⟩⟩, .eof 11] := by decide +kernel
  have h : read "PROGRAM T x" = .error
      ⟨.grammar (.expected .semicolonAfterProgramName ⟨.identifier, "x", ⟨10, 1⟩⟩), ⟨10, 1⟩⟩ := by
    rw [read, results_of_scan hs]
    rfl
  refine ⟨_, h, by decide, rfl, rfl, ?_⟩
  obtain ⟨before, t, after, _, hresults, hread, -, -, hviable, hnot⟩ :=
    (read_fault h (by decide)).1 rfl
  rw [results_of_scan hs] at hresults hread
  -- All tokens but the end are pulled, the one at fault last.
  obtain rfl : [.ok (.eof 11)] = after := congrArg Prod.snd hread
  have hpulled : [⟨.programWord, "PROGRAM", ⟨0, 7⟩⟩, ⟨.identifier, "T", ⟨8, 1⟩⟩] ++
      [⟨.identifier, "x", ⟨10, 1⟩⟩] = before ++ [t] :=
    List.map_injective_iff.2 (fun _ _ => Except.ok.inj) (List.append_cancel_right hresults)
  obtain ⟨rfl, ht⟩ := List.append_inj' hpulled rfl
  obtain rfl := List.singleton_inj.1 ht
  exact ⟨hviable, hnot⟩

end Program

end MiniPascal
