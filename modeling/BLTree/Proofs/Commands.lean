import BLTree.Command.Run
import BLTree.Proofs.Json.Listing

/-!
# Commands and the texts that they are run on

A command succeeds on a text that decodes, except that one that wants a procedure also needs the
text to list one under that very name. What it then draws is the statement that is listed there, and
a command that fails prints nothing.
-/

namespace BLTree

theorem FileContent.text_toUTF8 (text : String) : (bytes text.toUTF8).text = .ok text := by
  have hdecoded : String.fromUTF8? text.toUTF8 = some text := dif_pos text.isValidUTF8
  rw [FileContent.text, hdecoded]

namespace Program

/-- A file that holds a text is loaded by decoding that text. -/
theorem load_toUTF8 (path text : String) :
    load path (.bytes text.toUTF8) = (decode text).mapError (.undecodable path text) := by
  rw [load, FileContent.text_toUTF8]
  rfl

/-- The order of the names plays no part: a name finds what is listed under it. -/
theorem procedure?_eq_some_iff {text : String} {p : Program} {listing : Listing}
    (hdecode : decode text = .ok p) (hlist : list text = .ok listing) {name : String}
    {body : Statement} : p.procedure? name = some body ↔ (name, body) ∈ listing.procedures := by
  obtain ⟨listed, hlisted, hlists⟩ := list_of_decode hdecode
  have hsame : listed = listing := Except.ok.inj (hlisted.symm.trans hlist)
  rw [← hsame]
  exact hlists.procedures.get?_eq_some_iff

/-- A listed procedure is found under every name that has the same bytes. -/
theorem procedure?_of_listed {text : String} {p : Program} {listing : Listing}
    (hdecode : decode text = .ok p) (hlist : list text = .ok listing) {member : String × Statement}
    (hmember : member ∈ listing.procedures) {name : String}
    (hbytes : member.1.toUTF8 = name.toUTF8) : p.procedure? name = some member.2 := by
  have hname : member.1 = name := String.toByteArray_inj.mp hbytes
  rw [procedure?_eq_some_iff hdecode hlist, ← hname]
  exact hmember

end Program

namespace Command

/-- Success, or a failure that prints nothing. -/
def Response.Clean (response : Response) : Prop :=
  response.exit = 0 ∨ response.exit = 1 ∧ response.output = ""

theorem perform_of_procedure {name : String} {p : Program} {body : Statement}
    (h : p.procedure? name = some body) (coloured : Bool) :
    perform (.tree (some name)) coloured p = { exit := 0, output := body.draw coloured } := by
  simp only [perform, h]

theorem perform_of_no_procedure {name : String} {p : Program} (h : p.procedure? name = none)
    (coloured : Bool) : perform (.tree (some name)) coloured p =
      { exit := 1, report := some (missingProcedure p name) } := by
  simp only [perform, h]

/-- Drawing a procedure succeeds exactly if there is one of that name. -/
theorem exit_perform_procedure {name : String} {coloured : Bool} {p : Program} :
    (perform (.tree (some name)) coloured p).exit = 0 ↔ ∃ body, p.procedure? name = some body := by
  cases hfound : p.procedure? name with
  | none => simp [perform_of_no_procedure hfound]
  | some body => simp [perform_of_procedure hfound]

theorem clean_perform (action : Action) (coloured : Bool) (p : Program) :
    (perform action coloured p).Clean := by
  cases action with
  | check => exact .inl rfl
  | tree wanted =>
    cases wanted with
    | none => exact .inl rfl
    | some name =>
      cases hfound : p.procedure? name with
      | none =>
        rw [perform_of_no_procedure hfound]
        exact .inr ⟨rfl, rfl⟩
      | some body => exact .inl (exit_perform_procedure.mpr ⟨body, hfound⟩)

namespace Request

variable (request : Request) (env : Environment)

theorem clean_run (content : FileContent) : (request.run env content).Clean := by
  unfold run
  cases Program.load request.file content with
  | error fault => exact .inr ⟨rfl, rfl⟩
  | ok p => exact clean_perform request.action (request.colour.coloured env) p

theorem run_of_decode {text : String} {p : Program} (h : Program.decode text = .ok p) :
    request.run env (.bytes text.toUTF8) =
      perform request.action (request.colour.coloured env) p := by
  rw [run, Program.load_toUTF8, h]
  rfl

/-- A run succeeds exactly if the text is decoded and the action succeeds on the program. -/
theorem exit_run_eq_zero_iff {text : String} :
    (request.run env (.bytes text.toUTF8)).exit = 0 ↔ ∃ p, Program.decode text = .ok p ∧
      (perform request.action (request.colour.coloured env) p).exit = 0 := by
  constructor
  · intro hexit
    cases hdecode : Program.decode text with
    | error failure =>
      rw [run, Program.load_toUTF8, hdecode] at hexit
      cases hexit
    | ok p =>
      rw [request.run_of_decode env hdecode] at hexit
      exact ⟨p, rfl, hexit⟩
  · intro ⟨p, hdecode, hexit⟩
    rw [request.run_of_decode env hdecode]
    exact hexit

theorem exit_run_of_perform {text : String}
    (h : ∀ coloured p, (perform request.action coloured p).exit = 0) :
    (request.run env (.bytes text.toUTF8)).exit = 0 ↔ ∃ p, Program.decode text = .ok p := by
  simp only [exit_run_eq_zero_iff, h, and_true]

/-- A procedure is wanted by a text that need not be a name, and is found exactly if the text lists
one under a name of the same bytes. -/
theorem exit_run_procedure {colour : ColourMode} {file text name : String} :
    ((⟨colour, .tree (some name), file⟩ : Request).run env (.bytes text.toUTF8)).exit = 0 ↔
      (∃ p, Program.decode text = .ok p) ∧
        ∃ listing, Program.list text = .ok listing ∧
          ∃ member ∈ listing.procedures, member.1.toUTF8 = name.toUTF8 := by
  simp only [exit_run_eq_zero_iff, exit_perform_procedure]
  constructor
  · intro ⟨p, hdecode, body, hfound⟩
    obtain ⟨listing, hlist, -⟩ := Program.list_of_decode hdecode
    have hmember := (Program.procedure?_eq_some_iff hdecode hlist).mp hfound
    exact ⟨⟨p, hdecode⟩, listing, hlist, (name, body), hmember, rfl⟩
  · intro ⟨⟨p, hdecode⟩, listing, hlist, member, hmember, hbytes⟩
    exact ⟨p, hdecode, member.2, Program.procedure?_of_listed hdecode hlist hmember hbytes⟩

/-- When a command succeeds and what it draws, said of the text in the file, for any name that may
be wanted. -/
theorem run_prints_exactly_what_is_listed (colour : ColourMode) (file text : String)
    (env : Environment) :
    let coloured := colour.coloured env
    let run (action : Action) (content : FileContent) : Response :=
      (⟨colour, action, file⟩ : Request).run env content
    let held : FileContent := .bytes text.toUTF8
    ((run .check held).exit = 0 ↔ ∃ p, Program.decode text = .ok p) ∧
    ((run (.tree none) held).exit = 0 ↔ ∃ p, Program.decode text = .ok p) ∧
    (∀ p, Program.decode text = .ok p → (run (.tree none) held).output = p.body.draw coloured) ∧
    (∀ name, (run (.tree (some name)) held).exit = 0 ↔
      (∃ p, Program.decode text = .ok p) ∧
        ∃ listing, Program.list text = .ok listing ∧
          ∃ member ∈ listing.procedures, member.1.toUTF8 = name.toUTF8) ∧
    (∀ name p listing, Program.decode text = .ok p → Program.list text = .ok listing →
      ∀ member ∈ listing.procedures, member.1.toUTF8 = name.toUTF8 →
        (run (.tree (some name)) held).output = member.2.draw coloured) ∧
    (∀ action content, (run action content).exit ≠ 0 →
      (run action content).exit = 1 ∧ (run action content).output = "") := by
  intro coloured run held
  refine ⟨?check, ?body, ?bodyDrawn, fun name ↦ exit_run_procedure env, ?procedureDrawn, ?failed⟩
  case check => exact exit_run_of_perform _ env fun _ _ ↦ rfl
  case body => exact exit_run_of_perform _ env fun _ _ ↦ rfl
  case bodyDrawn =>
    intro p hdecode
    calc
      (run (.tree none) held).output = (perform (.tree none) coloured p).output :=
        congrArg Response.output (run_of_decode _ env hdecode)
      _ = p.body.draw coloured := rfl
  case procedureDrawn =>
    intro name p listing hdecode hlist member hmember hbytes
    have hfound : p.procedure? name = some member.2 :=
      Program.procedure?_of_listed hdecode hlist hmember hbytes
    calc
      (run (.tree (some name)) held).output = (perform (.tree (some name)) coloured p).output :=
        congrArg Response.output (run_of_decode _ env hdecode)
      _ = member.2.draw coloured := by rw [perform_of_procedure hfound]
  case failed =>
    intro action content hexit
    exact (clean_run _ env content).resolve_left hexit

end Request

end Command

end BLTree
