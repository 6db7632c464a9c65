import Mathlib.Data.List.Basic
import MiniPascal.Proofs.Json.Reading
import MiniPascal.Proofs.Names.Uses
import MiniPascal.Proofs.Printing.Faithful
import MiniPascal.Proofs.Run.Finite

/-!
# Proofs — Printing — Store

What is printed of a store tells the store.  Names are spelled like names, so a line tells its name
by the first blank, and finite numbers have texts without line ends from which they are read back,
so it tells its value by its end (`Store.line_append_inj`); an integer has no text of a real, nor a
real that of the zero of the other sign.  The JSON text is that of an object with a field for each
variable.  All stores that a session of texts passes have such names, each of them once, and such
values (`Session.Passes.printable`).  Main statement: two of them have the same listing, or the same
JSON text, exactly if they are the same (`Session.printed_exact`).
-/

namespace MiniPascal

/-! ### Values -/

namespace Number

variable {m n : Number}

/-- Values are told apart by their JSON values, an integer from a real of the same size too. -/
theorem plainJson_injective (h : m.plainJson = n.plainJson) : m = n := by
  cases m with
  | int i =>
      cases n with
      | int j => rw [Int64.toInt_inj.1 (Json.int.inj h)]
      | real y => cases h
  | real x =>
      cases n with
      | int j => cases h
      | real y => rw [Json.real.inj h]

theorem Finite.allFinite_plainJson (h : n.Finite) : n.plainJson.AllFinite := by
  cases n with
  | int i => trivial
  | real x => exact h

/-- The text of a finite number is a JSON number. -/
theorem Finite.isNumber_text (h : n.Finite) (l : Layout) : Json.IsNumber (n.text l).toList := by
  cases n with
  | int i => exact Json.isNumber_intText i.toInt
  | real x => exact Json.isNumber_layout l h

/-- It stands for that number, and tells whether it is an integer or a real. -/
theorem Finite.number?_text (h : n.Finite) (l : Layout) :
    Json.number? (n.text l).toList = some n.plainJson := by
  cases n with
  | int i => exact Json.number?_intText i.toInt
  | real x => exact Json.number?_layout l h

/-- Finite numbers with the same text are the same. -/
theorem text_inj (hm : m.Finite) (hn : n.Finite) {l : Layout} (h : m.text l = n.text l) :
    m = n := by
  have hread := hm.number?_text l
  rw [h, hn.number?_text] at hread
  exact (plainJson_injective (Option.some.inj hread)).symm

end Number

/-! ### Stores that can be told -/

/-- A store whose names are spelled like names, each of them once, and whose values are finite. -/
structure Store.Printable (s : Store) : Prop where
  nameable : ∀ name ∈ s.names, Nameable name
  nodup    : s.names.Nodup
  finite   : s.Finite

namespace Store

variable {s t : Store} {e f : String × Number} {es fs : List (String × Number)}

theorem printable_empty : Printable .empty := ⟨nofun, .nil, nofun⟩

theorem Printable.nameable_entry (h : s.Printable) (he : e ∈ s.entries) : Nameable e.1 :=
  h.nameable _ (List.mem_map_of_mem he)

/-- An assignment that is written in a text adds a name that is spelled like one, or none. -/
theorem Printable.assign (hs : s.Printable) {a : Assignment} (ha : a.Writable)
    (h : s.assign a = .ok t) : t.Printable := by
  have hfinite := hs.finite.assign ha h
  obtain ⟨n, -, rfl⟩ := exists_value_of_assign h
  refine ⟨fun name hname => ?_, Bindings.nodup_names_put hs.nodup _ _, hfinite⟩
  rcases Bindings.mem_names_put.1 hname with rfl | hname
  · exact ha.1
  · exact hs.nameable name hname

/-! ### Listings -/

/-- The line of a variable. -/
def line (e : String × Number) : List Char :=
  e.1.toList ++ ' ' :: '=' :: ' ' :: ((e.2.text .value).toList ++ ['\n'])

/-- The text of a store is its lines, one behind another. -/
theorem toList_text (s : Store) : s.text.toList = s.entries.flatMap line := by
  rw [text, String.toList_join, List.flatMap_map]
  refine congrArg (List.flatMap · s.entries) (funext fun e => ?_)
  simp [line]

/-- A line tells its name and its value, and where it ends in a longer text. -/
theorem line_append_inj {rest rest' : List Char} (he : Nameable e.1) (hf : Nameable f.1)
    (he' : e.2.Finite) (hf' : f.2.Finite) (h : line e ++ rest = line f ++ rest') :
    e = f ∧ rest = rest' := by
  simp only [line, List.append_assoc, List.cons_append, List.nil_append] at h
  -- The name ends at the first blank.
  obtain ⟨hname, hvalue⟩ := he.unseparated.append_inj hf.unseparated (endsWord_cons rfl _)
    (endsWord_cons rfl _) h
  simp only [List.cons.injEq, true_and] at hvalue
  -- No text of a number has a line end in it.
  have hend : ∀ {rest}, ∀ c ∈ ('\n' :: rest).head?, Json.isNumberChar c = false := by
    rintro _ _ ⟨⟩
    rfl
  obtain ⟨htext, hrest⟩ := append_inj_of_stop
    (Json.isNumberChar_of_isNumber (he'.isNumber_text _))
    (Json.isNumberChar_of_isNumber (hf'.isNumber_text _)) hend hend hvalue
  refine ⟨Prod.ext hname (Number.text_inj he' hf' (String.toList_inj.1 htext)), ?_⟩
  exact (List.cons.inj hrest).2

/-- Lines one behind another are told apart: each ends with its own line end. -/
theorem flatMap_line_inj (hes : ∀ e ∈ es, Nameable e.1 ∧ e.2.Finite)
    (hfs : ∀ f ∈ fs, Nameable f.1 ∧ f.2.Finite) (h : es.flatMap line = fs.flatMap line) :
    es = fs := by
  have hne : ∀ (e : String × Number) rest, line e ++ rest ≠ [] := by simp [line]
  induction es generalizing fs with
  | nil =>
      cases fs with
      | nil => rfl
      | cons f fs => exact absurd h.symm (hne f _)
  | cons e es ih =>
      cases fs with
      | nil => exact absurd h (hne e _)
      | cons f fs =>
          obtain ⟨⟨he, he'⟩, hrest⟩ := List.forall_mem_cons.1 hes
          obtain ⟨⟨hf, hf'⟩, hrest'⟩ := List.forall_mem_cons.1 hfs
          rw [List.flatMap_cons, List.flatMap_cons] at h
          obtain ⟨rfl, hlines⟩ := line_append_inj he hf he' hf' h
          rw [ih hrest hrest' hlines]

/-- **The listing of a store tells the store.** -/
theorem text_inj (hs : s.Printable) (ht : t.Printable) (h : s.text = t.text) : s = t := by
  have hentries : ∀ {u : Store}, u.Printable → ∀ e ∈ u.entries, Nameable e.1 ∧ e.2.Finite :=
    fun hu _ he => ⟨hu.nameable_entry he, hu.finite _ he⟩
  have hlines := congrArg String.toList h
  rw [toList_text, toList_text] at hlines
  have hsame := flatMap_line_inj (hentries hs) (hentries ht) hlines
  cases s
  cases t
  exact congrArg Bindings.mk hsame

example : text ⟨[("x", .int 0), ("y", .real (.zero false)), ("z", .real (.zero true))]⟩ =
    "x = 0\ny = 0.0\nz = -0.0\n" := by
  decide +kernel

/-! ### JSON texts -/

/-- Stores are told apart by their JSON values. -/
theorem toJson_injective (h : s.toJson = t.toJson) : s = t := by
  have hfield : Function.Injective fun e : String × Number => (e.1, e.2.plainJson) := by
    intro e f hef
    obtain ⟨hname, hvalue⟩ := Prod.mk.inj hef
    exact Prod.ext hname (Number.plainJson_injective hvalue)
  have hentries := List.map_injective_iff.2 hfield (Json.obj.inj h)
  cases s
  cases t
  exact congrArg Bindings.mk hentries

theorem Finite.allFinite_toJson (hs : s.Finite) : s.toJson.AllFinite := by
  obtain ⟨es⟩ := s
  change Json.FieldsFinite (es.map fun e => (e.1, e.2.plainJson))
  induction es with
  | nil => trivial
  | cons e es ih =>
      obtain ⟨he, hes⟩ := List.forall_mem_cons.1 hs
      exact ⟨he.allFinite_plainJson, ih hes⟩

/-- **The JSON text of a store is read back as what was written.** -/
theorem Finite.read?_render (hs : s.Finite) {style : Json.Style} (hstyle : style.IsBlank)
    (depth : Nat) : Json.read? (s.toJson.render style depth) = some s.toJson :=
  Json.read?_render hstyle hs.allFinite_toJson depth

theorem render_inj (hs : s.Finite) (ht : t.Finite) {style : Json.Style} (hstyle : style.IsBlank)
    {depth : Nat} (h : s.toJson.render style depth = t.toJson.render style depth) : s = t := by
  have hread := hs.read?_render hstyle depth
  rw [h, ht.read?_render hstyle] at hread
  exact (toJson_injective (Option.some.inj hread)).symm

end Store

/-! ### Stores that are passed -/

/-- The store that the run of a text leaves is passed. -/
theorem Run.passes_ofSource {source : String} {remains : Remains}
    (h : (ofSource source).result = .ok remains) :
    Session.Passes .empty (Session.programs [source]) remains.store := by
  have hends := ends_ofSource source
  rw [h] at hends
  cases hends with
  | @finished p scope s hread hcheck hfolds =>
      rw [Session.programs_of_read hread]
      exact .within hfolds.passes

namespace Session

variable {texts texts' : List String} {s t : Store}

/-- What programs that are read leave is printable. -/
theorem Passes.printable (h : Passes .empty (programs texts) s) : s.Printable :=
  h.invariant (fun _ hp _ ha _ _ hs hassign =>
    hs.assign (Program.writable_assignments (writable_of_mem_programs hp) _ ha) hassign)
    Store.printable_empty

/-- **What is printed of a store is unambiguous.**  Two stores that sessions of texts pass have the
same listing exactly if they have the same JSON text, in whatever style of blanks, and exactly if
they are the same: the same names in the same order with numbers of the same kind, value and sign.
The JSON text is that of an object whose keys are the names, no two of them the same. -/
theorem printed_exact (hs : Passes .empty (programs texts) s)
    (ht : Passes .empty (programs texts') t) :
    (s.text = t.text ↔ s = t) ∧
      ∀ style : Json.Style, style.IsBlank → ∀ depth,
        (s.toJson.render style depth = t.toJson.render style depth ↔ s = t) ∧
        ∃ fields, Json.IsText (.obj fields) (s.toJson.render style depth) ∧
          Json.read? (s.toJson.render style depth) = some (.obj fields) ∧
          fields.map (·.1) = s.names ∧ (fields.map (·.1)).Nodup := by
  have hs := hs.printable
  have ht := ht.printable
  refine ⟨⟨Store.text_inj hs ht, congrArg Store.text⟩, fun style hstyle depth => ⟨⟨?_, ?_⟩, ?_⟩⟩
  · exact Store.render_inj hs.finite ht.finite hstyle
  · rintro rfl
    rfl
  · have hnames : (s.entries.map fun e => (e.1, e.2.plainJson)).map (·.1) = s.names := by
      rw [List.map_map]
      rfl
    refine ⟨_, Json.isText_render hstyle hs.finite.allFinite_toJson depth,
      hs.finite.read?_render hstyle depth, hnames, ?_⟩
    rw [hnames]
    exact hs.nodup

/-- The store that `assignedSource` leaves. -/
def assignedStore : Store := ⟨[("x", .int 1)]⟩

theorem passes_assignedStore : Passes .empty (programs [Run.assignedSource]) assignedStore := by
  have hend : ∃ remains, (Run.ofSource Run.assignedSource).result = .ok remains ∧
      remains.store = assignedStore := by
    rw [Run.ofSource, Program.read, results_of_scan Run.scan_assignedSource]
    exact ⟨_, rfl, rfl⟩
  obtain ⟨remains, hremains, hstore⟩ := hend
  rw [← hstore]
  exact Run.passes_ofSource hremains

theorem printed_exact_example :
    assignedStore.text ≠ quarterStore.text ∧
      assignedStore.toJson.compact ≠ quarterStore.toJson.compact ∧
      ∃ fields, Json.read? assignedStore.toJson.compact = some (.obj fields) ∧
        fields.map (·.1) = ["x"] := by
  have hne : assignedStore ≠ quarterStore := by decide
  obtain ⟨htext, hjson⟩ := printed_exact passes_assignedStore passes_quarterStore
  obtain ⟨hcompact, fields, -, hread, hnames, -⟩ := hjson .compact Json.Style.isBlank_compact 0
  exact ⟨mt htext.1 hne, mt hcompact.1 hne, fields, hread, hnames⟩

end Session

end MiniPascal
