import Mathlib
import AvroSchemata.Command.Run
set_option autoImplicit false

namespace AvroSchemata.Command

section Lines

variable {α β ε : Type}

theorem mapM_cases (f : α → Except ε β) (xs : List α) :
    (∃ ys, xs.mapM f = .ok ys ∧ List.Forall₂ (fun x y => f x = .ok y) xs ys) ∨
    ∃ before x after e, xs = before ++ x :: after ∧ (∀ b ∈ before, ∃ y, f b = .ok y) ∧
      f x = .error e ∧ xs.mapM f = .error e := by
  induction xs with
  | nil => exact .inl ⟨[], rfl, .nil⟩
  | cons x xs ih =>
    rw [List.mapM_cons]
    cases hx : f x with
    | error e => exact .inr ⟨[], x, xs, e, rfl, nofun, hx, rfl⟩
    | ok y =>
      obtain ⟨ys, he, all⟩ | ⟨before, z, after, e, split, all, bad, he⟩ := ih
      · exact .inl ⟨y :: ys, by rw [he]; rfl, .cons hx all⟩
      · refine .inr ⟨x :: before, z, after, e, by rw [split]; rfl, ?_, bad, by rw [he]; rfl⟩
        exact List.forall_mem_cons.2 ⟨⟨y, hx⟩, all⟩

theorem linesText_eq_join {lines : List String} (h : lines ≠ []) :
    linesText lines = String.join (lines.map (· ++ "\n")) := by
  induction lines with
  | nil => exact absurd rfl h
  | cons line lines ih =>
    cases lines with
    | nil => simp [linesText]
    | cons next lines =>
      have rest : "\n".intercalate (next :: lines) ++ "\n" =
          String.join ((next :: lines).map (· ++ "\n")) := ih (List.cons_ne_nil _ _)
      rw [linesText, String.intercalate_cons_cons, String.append_assoc, rest]
      simp [String.append_assoc]

end Lines

def Invocation.only (run : Invocation) (name : String) : Invocation := { run with types := [name] }

def Report.written (r : Report) : String :=
  match r.saved? with
  | some (_, text) => text
  | none => r.printed

/-- The run ends well and writes this text, once and where it has to. A path may lead to the
standard output as well. -/
structure Report.Delivers (r : Report) (places : Places) (output? : Option String)
    (text : String) : Prop where
  code : r.code = 0
  message : r.message? = none
  printed : output? = none → r.printed = text ∧ r.saved? = none
  saved : ∀ path place, output? = some path → places path = .ok place →
    if place = .output then r.printed = text ∧ r.saved? = none
    else r.printed = "" ∧ r.saved? = some (place, text)
  content : ∀ path folder name, output? = some path →
    places path = .ok (.file folder name) → r.content? path places = some text

def Writable (places : Places) (output? : Option String) : Prop :=
  ∀ path, output? = some path → ∃ place, places path = .ok place

variable {places : Places}

theorem Report.Delivers.written {r : Report} {output? : Option String} {text : String}
    (h : r.Delivers places output? text) (writable : Writable places output?) :
    r.written = text := by
  cases output? with
  | none => rw [Report.written, (h.printed rfl).2, (h.printed rfl).1]
  | some path =>
    obtain ⟨place, found⟩ := writable path rfl
    have saved := h.saved path place rfl found
    split at saved
    · rw [Report.written, saved.2, saved.1]
    · rw [Report.written, saved.2]

namespace Ending

variable {text path : String} {place : Place}

theorem delivers_printed : ((printed text).report places).Delivers places none text :=
  ⟨rfl, rfl, fun _ => ⟨rfl, rfl⟩, nofun, nofun⟩

theorem report_saved (found : places path = .ok place) :
    (saved path text).report places = if place = .output then { code := 0, printed := text }
      else { code := 0, saved? := some (place, text) } := by
  simp only [report, found]
  cases place <;> rfl

theorem delivers_saved (found : places path = .ok place) :
    ((saved path text).report places).Delivers places (some path) text := by
  rw [report_saved found]
  refine ⟨by split <;> rfl, by split <;> rfl, nofun, fun _ place' same found' => ?_,
    fun _ folder name same found' => ?_⟩
  · cases same
    cases found.symm.trans found'
    split <;> exact ⟨rfl, rfl⟩
  · cases same
    cases found.symm.trans found'
    simp [Report.content?, found]

end Ending

namespace Invocation

variable {run : Invocation} {name text : String} {reason : Failure}

theorem delivers_of_ok (h : run.text = .ok text) (writable : Writable places run.output?) :
    (run.ending.report places).Delivers places run.output? text := by
  cases output : run.output? with
  | none =>
    have ending : run.ending = .printed text := by rw [ending, h, output]
    rw [ending]
    exact Ending.delivers_printed
  | some path =>
    have ending : run.ending = .saved path text := by rw [ending, h, output]
    obtain ⟨place, found⟩ := writable path output
    rw [ending]
    exact Ending.delivers_saved found

theorem report_of_error (h : run.text = .error reason) :
    run.ending.report places = { code := 1, message? := some ("Error: " ++ reason.message) } := by
  rw [ending, h]
  rfl

theorem text_of_types (types : run.list = false) :
    run.text = linesText <$> run.types.mapM (schemaText run.pretty) := by
  rw [text, if_neg (by rw [types]; decide)]

theorem written_only (types : run.list = false) (h : schemaText run.pretty name = .ok text)
    (writable : Writable places run.output?) :
    ((run.only name).ending.report places).written = text ++ "\n" := by
  have single : (run.only name).text = .ok (text ++ "\n") := by
    have types : (run.only name).list = false := types
    rw [text_of_types types]
    simp [only, h, linesText]
  exact (delivers_of_ok single writable).written writable

theorem types_ne_nil {arguments : List String} (parsed : ofArguments? arguments = some run)
    (types : run.list = false) : run.types ≠ [] := by
  obtain ⟨requests, -, h⟩ := Option.bind_eq_some_iff.1 parsed
  simp only [ofRequests?, Option.ite_none_right_eq_some, Option.some.injEq] at h
  obtain ⟨rules, rfl⟩ := h
  exact rules.2.2.2.resolve_right (by simpa using types)

theorem delivers_of_types (named : run.types ≠ []) (types : run.list = false)
    (good : ∀ name ∈ run.types, ∃ text, schemaText run.pretty name = .ok text)
    (writable : Writable places run.output?) :
    (run.ending.report places).Delivers places run.output?
      (String.join (run.types.map fun name => ((run.only name).ending.report places).written)) := by
  obtain ⟨lines, he, all⟩ | ⟨before, name, after, e, split, -, bad, -⟩ :=
    mapM_cases (schemaText run.pretty) run.types
  · have text : run.text = .ok (linesText lines) := by
      rw [text_of_types types, he]
      rfl
    have lines_ne_nil : lines ≠ [] := by
      rintro rfl
      exact named (List.forall₂_nil_right_iff.1 all)
    -- each run for one type ends its own line, as the common run ends all of them
    have singles : run.types.map (fun name => ((run.only name).ending.report places).written) =
        lines.map (· ++ "\n") := by
      rw [← List.forall₂_eq_eq_eq, List.forall₂_map_left_iff, List.forall₂_map_right_iff]
      exact all.imp fun _ _ h => written_only types h writable
    rw [singles, ← linesText_eq_join lines_ne_nil]
    exact delivers_of_ok text writable
  · obtain ⟨text, ok⟩ := good name (by rw [split]; simp)
    cases ok.symm.trans bad

theorem report_of_types (types : run.list = false)
    (bad : ∃ name ∈ run.types, ∃ e, schemaText run.pretty name = .error e) :
    ∃ before name after e, run.types = before ++ name :: after ∧
      (∀ b ∈ before, ∃ text, schemaText run.pretty b = .ok text) ∧
      schemaText run.pretty name = .error e ∧
      run.ending.report places =
        { code := 1, printed := "", message? := some ("Error: " ++ e.message), saved? := none } := by
  obtain ⟨lines, -, all⟩ | ⟨before, name, after, e, split, good, bad, he⟩ :=
    mapM_cases (schemaText run.pretty) run.types
  · obtain ⟨name, hn, e, bad⟩ := bad
    obtain ⟨i, hi, rfl⟩ := List.getElem_of_mem hn
    have ok := all.get hi (all.length_eq ▸ hi)
    cases ok.symm.trans bad
  · refine ⟨before, name, after, e, split, good, bad, report_of_error ?_⟩
    rw [text_of_types types, he]
    rfl

theorem ending_of_list (list : run.list = true) (types : List String) :
    { run with types }.ending = run.ending := by
  simp [ending, text, list]

end Invocation

theorem Ending.ofArguments_of_run {arguments : List String} {run : Invocation}
    (parsed : Invocation.ofArguments? arguments = some run) :
    Ending.ofArguments arguments = run.ending := by rw [ofArguments, parsed]

/-- Arguments that name types lead to the texts of all of them, as runs for each would write them
one after the other, or to the failure of the first type that has none, and then nothing is
written. Arguments that ask for the list lead to the same with any other types. -/
theorem Ending.report_ofArguments (places : Places) {arguments : List String} {run : Invocation}
    (parsed : Invocation.ofArguments? arguments = some run) :
    (run.list = false → (∀ name ∈ run.types, ∃ text, schemaText run.pretty name = .ok text) →
      Writable places run.output? →
      ((Ending.ofArguments arguments).report places).Delivers places run.output?
        (String.join (run.types.map fun name =>
          ((run.only name).ending.report places).written))) ∧
    (run.list = false → (∃ name ∈ run.types, ∃ e, schemaText run.pretty name = .error e) →
      ∃ before name after e, run.types = before ++ name :: after ∧
        (∀ b ∈ before, ∃ text, schemaText run.pretty b = .ok text) ∧
        schemaText run.pretty name = .error e ∧
        (Ending.ofArguments arguments).report places =
          { code := 1, printed := "", message? := some ("Error: " ++ e.message),
            saved? := none }) ∧
    (run.list = true → ∀ others types, Invocation.ofArguments? others = some { run with types } →
      Ending.ofArguments others = Ending.ofArguments arguments) := by
  rw [ofArguments_of_run parsed]
  refine ⟨fun types => Invocation.delivers_of_types (Invocation.types_ne_nil parsed types) types,
    Invocation.report_of_types, fun list others types parsed' => ?_⟩
  rw [ofArguments_of_run parsed', Invocation.ending_of_list list]

theorem Ending.report_ofArguments_guid :
    let saving : Invocation := ⟨["int", "guid", "int"], false, true, some "x"⟩
    let failing : Invocation := ⟨["int", "core.time.Duration", "no"], false, false, none⟩
    let listing : Invocation := ⟨[], true, false, none⟩
    (Invocation.ofArguments? ["--pretty", "-o=x", "int", "guid", "int"] = some saving ∧
      Place.ofPath "x" = .ok (.file Folder.start "x") ∧
      (Ending.ofArguments ["--pretty", "-o=x", "int", "guid", "int"]).report.Delivers Place.ofPath
        (some "x") (String.join (saving.types.map fun name => (saving.only name).ending.report.written))) ∧
    (Invocation.ofArguments? ["int", "core.time.Duration", "no"] = some failing ∧
      (∃ name ∈ failing.types, ∃ e, schemaText false name = .error e) ∧
      ∃ before name after e, failing.types = before ++ name :: after ∧
        (∀ b ∈ before, ∃ text, schemaText false b = .ok text) ∧
        schemaText false name = .error e ∧
        (Ending.ofArguments ["int", "core.time.Duration", "no"]).report =
          { code := 1, printed := "", message? := some ("Error: " ++ e.message),
            saved? := none }) ∧
    (Invocation.ofArguments? ["--list"] = some listing ∧
      Invocation.ofArguments? ["no", "--list"] = some { listing with types := ["no"] } ∧
      Ending.ofArguments ["no", "--list"] = Ending.ofArguments ["--list"]) := by
  intro saving failing listing
  have parsed : Invocation.ofArguments? ["--pretty", "-o=x", "int", "guid", "int"] = some saving :=
    by decide
  have place : Place.ofPath "x" = .ok (.file Folder.start "x") := by cbv
  have good : ∀ name ∈ saving.types, ∃ text, schemaText true name = .ok text := by
    have int : ∃ text, schemaText true "int" = .ok text := ⟨_, rfl⟩
    have guid : ∃ text, schemaText true "guid" = .ok text := ⟨_, rfl⟩
    simp [saving, int, guid]
  have writable : Writable Place.ofPath saving.output? := fun path h => by
    cases h
    exact ⟨_, place⟩
  have parsed' : Invocation.ofArguments? ["int", "core.time.Duration", "no"] = some failing := by
    decide
  have bad : ∃ name ∈ failing.types, ∃ e, schemaText false name = .error e :=
    ⟨"no", by decide, _, rfl⟩
  have list : Invocation.ofArguments? ["--list"] = some listing := by decide
  have list' : Invocation.ofArguments? ["no", "--list"] = some { listing with types := ["no"] } := by
    decide
  exact ⟨⟨parsed, place, (report_ofArguments Place.ofPath parsed).1 rfl good writable⟩,
    ⟨parsed', bad, (report_ofArguments Place.ofPath parsed').2.1 rfl bad⟩,
    list, list', (report_ofArguments Place.ofPath list).2.2 rfl _ _ list'⟩

end AvroSchemata.Command
