import MiniPascal.Command

/-!
# Proofs — Command — Arguments

Arguments of the command line one after another.  What arguments ask for is asked for in addition to
what those before them did (`Request.withArguments_append`), and asking for more of a log changes
nothing but the count of these requests, which no option depends on; so an argument that asks for
it may stand wherever an argument may, or be left out (`options?_log`).
-/

namespace MiniPascal

namespace Command

/-- An argument that asks for more of a log, and for nothing else. -/
def AsksForLog (arg : String) : Prop :=
  arg = "--verbose" ∨ ∃ n, arg = .ofList ('-' :: List.replicate (n + 1) 'v')

/-- Only one argument is the separator. -/
theorem Argument.eq_of_separator {arg : String} (h : ofString arg = .separator) : arg = "--" := by
  unfold ofString at h
  split at h
  · next harg => exact String.toList_inj.1 harg
  · split at h <;> cases h
  · cases h
  · cases h

namespace Request

variable {r r' : Request} {args : List String}

/-! ### One after another -/

/-- Behind arguments that are complete in themselves the others are read from what these ask for. -/
theorem withArguments_append (h : r.withArguments args = some r') (hseparator : "--" ∉ args)
    (more : List String) : r.withArguments (args ++ more) = r'.withArguments more := by
  fun_induction withArguments r args with
  | case1 r =>
      cases h
      rfl
  | case2 r arg rest hform =>
      exact absurd (Argument.eq_of_separator hform ▸ .head _) hseparator
  | case3 r arg rest path hform ih =>
      rw [List.cons_append, withArguments, hform]
      exact ih h fun hrest => hseparator (.tail _ hrest)
  | case4 r arg rest letters hform ih =>
      obtain ⟨q, hq, h⟩ := Option.bind_eq_some_iff.1 h
      rw [List.cons_append, withArguments, hform]
      simp only [hq]
      exact ih q h fun hrest => hseparator (.tail _ hrest)
  | case5 r arg rest name value hform ih =>
      obtain ⟨q, hq, h⟩ := Option.bind_eq_some_iff.1 h
      rw [List.cons_append, withArguments, hform]
      simp only [hq]
      exact ih q h fun hrest => hseparator (.tail _ hrest)
  | case6 r arg name hform hvalue value rest ih =>
      obtain ⟨q, hq, h⟩ := Option.bind_eq_some_iff.1 h
      rw [List.cons_append, List.cons_append, withArguments, hform]
      simp only [hvalue, hq]
      exact ih q h fun hrest => hseparator (.tail _ (.tail _ hrest))
  | case7 r arg name hform hvalue => cases h
  | case8 r arg rest name hform hvalue ih =>
      obtain ⟨q, hq, h⟩ := Option.bind_eq_some_iff.1 h
      rw [List.cons_append, withArguments, hform]
      simp only [if_neg hvalue, hq]
      exact ih q h fun hrest => hseparator (.tail _ hrest)

/-! ### Asking for more of a log -/

/-- What is asked for, apart from a log. -/
def quiet (r : Request) : Request := { r with verbosity := 0 }

/-- A flag sets the same whether more of a log has been asked for or not. -/
theorem withFlag_quiet (r : Request) (name : String) :
    (r.quiet.withFlag name).map quiet = (r.withFlag name).map quiet := by
  unfold withFlag quiet
  split
  · split <;> rfl
  · split <;> rfl
  · split <;> rfl
  · rfl
  · rfl

theorem withOption_quiet (r : Request) (name value : String) :
    (r.quiet.withOption name value).map quiet = (r.withOption name value).map quiet := by
  unfold withOption quiet
  split
  · split
    · rfl
    · simp only [Option.map_map, Function.comp_def]
  · split
    · rfl
    · simp only [Option.map_map, Function.comp_def]
  · rfl

theorem withLetters_quiet (r : Request) (letters : List Char) :
    (r.quiet.withLetters letters).map quiet = (r.withLetters letters).map quiet := by
  unfold withLetters quiet
  split <;> rfl

/-- What goes on alike from requests alike but for the log comes to the same but for the log. -/
theorem bind_quiet {x y : Option Request} {k : Request → Option Request}
    (h : x.map quiet = y.map quiet) (hk : ∀ q, (k q.quiet).map quiet = (k q).map quiet) :
    (x >>= k).map quiet = (y >>= k).map quiet := by
  cases x with
  | none =>
      cases y with
      | none => rfl
      | some q => cases h
  | some p =>
      cases y with
      | none => cases h
      | some q =>
          have hpq : p.quiet = q.quiet := Option.some.inj h
          show (k p).map quiet = (k q).map quiet
          rw [← hk p, hpq, hk q]

/-- How much of a log has been asked for does not bear on what is asked for behind it. -/
theorem withArguments_quiet (r : Request) (args : List String) :
    (r.quiet.withArguments args).map quiet = (r.withArguments args).map quiet := by
  fun_induction withArguments r args with
  | case1 r => rfl
  | case2 r arg rest hform =>
      rw [withArguments, hform]
      rfl
  | case3 r arg rest path hform ih =>
      rw [withArguments, hform]
      exact ih
  | case4 r arg rest letters hform ih =>
      rw [withArguments, hform]
      exact bind_quiet (r.withLetters_quiet letters) ih
  | case5 r arg rest name value hform ih =>
      rw [withArguments, hform]
      exact bind_quiet (r.withOption_quiet name value) ih
  | case6 r arg name hform hvalue value rest ih =>
      rw [withArguments, hform]
      simp only [if_pos hvalue]
      exact bind_quiet (r.withOption_quiet name value) ih
  | case7 r arg name hform hvalue =>
      rw [withArguments, hform]
      simp only [if_pos hvalue]
  | case8 r arg rest name hform hvalue ih =>
      rw [withArguments, hform]
      simp only [if_neg hvalue]
      exact bind_quiet (r.withFlag_quiet name) ih

/-- The options that a request comes to, if it is for one file. -/
def options? (r : Request) : Option Options :=
  match r.files with
  | [file] =>
      some ⟨file, r.dumpTokens, r.dumpTree, r.treeFormat.getD .sexp, r.symbols,
        r.output.getD .text⟩
  | _      => none

/-- Requests alike but for the log come to the same options. -/
theorem options?_bind_congr {x y : Option Request} (h : x.map quiet = y.map quiet) :
    x.bind options? = y.bind options? := by
  have hquiet : ∀ z : Option Request, z.bind options? = (z.map quiet).bind options? := by
    intro z
    cases z <;> rfl
  rw [hquiet x, h, ← hquiet y]

/-- An argument that asks for more of a log is counted, and that is all. -/
theorem withArguments_log {arg : String} (h : AsksForLog arg) (r : Request) (rest : List String) :
    ∃ n, r.withArguments (arg :: rest) = { r with verbosity := n }.withArguments rest := by
  rcases h with rfl | ⟨n, rfl⟩
  · have hform : Argument.ofString "--verbose" = .long "verbose" none := by decide
    refine ⟨r.verbosity + 1, ?_⟩
    rw [withArguments, hform]
    rfl
  · have hform : Argument.ofString (.ofList ('-' :: List.replicate (n + 1) 'v')) =
        .letters (List.replicate (n + 1) 'v') := by
      rw [Argument.ofString, String.toList_ofList, List.replicate_succ]
      rfl
    refine ⟨r.verbosity + (n + 1), ?_⟩
    have hall : (List.replicate (n + 1) 'v').all (· = 'v') = true := by simp
    rw [withArguments, hform]
    simp only [withLetters, if_pos hall, List.length_replicate]
    rfl

end Request

theorem options?_eq (args : List String) :
    options? args = (Request.empty.withArguments args).bind Request.options? := rfl

/-- **Asking for more of a log has no other effect.**  Behind arguments that are complete in
themselves it may be asked for once more. -/
theorem options?_log {pre : List String} (hpre : (Request.empty.withArguments pre).isSome = true)
    (hseparator : "--" ∉ pre) {arg : String} (harg : AsksForLog arg) (post : List String) :
    options? (pre ++ arg :: post) = options? (pre ++ post) := by
  obtain ⟨r, hr⟩ := Option.isSome_iff_exists.1 hpre
  obtain ⟨n, hlog⟩ := Request.withArguments_log harg r post
  rw [options?_eq, options?_eq, Request.withArguments_append hr hseparator,
    Request.withArguments_append hr hseparator, hlog]
  refine Request.options?_bind_congr ?_
  rw [← Request.withArguments_quiet { r with verbosity := n }, ← Request.withArguments_quiet r]
  rfl

end Command

end MiniPascal
