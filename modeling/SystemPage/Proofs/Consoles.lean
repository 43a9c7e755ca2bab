/-
  SystemPage.Proofs.Consoles — the tokens that name a console.

  A token is cut at its first point and what is behind the point is read as one numeral, whatever is
  in it.  That a token with a second point is refused is said nowhere; it is refused since there is
  no point in a numeral.  The same goes for signs, blanks and halves without a character.

  The first numeral only has to be there.  It is read before the second one, and the session is not
  touched until both of them are, so a token that is refused leaves the session as it is.

  Main results:

      consoleNumber_eq_ok_iff — the tokens that are read, and the number that each of them gives
      consoleNumber_error     — any other token is refused as a console
      selectConsole_exact     — what a token does to a session
-/
import SystemPage.Proofs.Numerals

namespace SystemPage
namespace Session

variable {s : Session} {token : String} {number : UInt32}

/-! ## §1. Tokens. -/

/-- A token that names a console: two numerals with a point between them, and no other point.  The
number of the console is the second of the two. -/
def NamesConsole (token : String) (number : UInt32) : Prop :=
  token.toList.count '.' = 1 ∧ ∃ (major minor : String) (first : UInt32),
    token = major ++ "." ++ minor ∧ Spells major.toList first.toNat
      ∧ Spells minor.toList number.toNat

/-- A token with a point in it has a first one. -/
theorem exists_pointed (h : '.' ∈ token.toList) :
    ∃ major minor : String, token = major ++ "." ++ minor ∧ '.' ∉ major.toList := by
  obtain ⟨before, behind, htoken, hbefore⟩ := List.eq_append_cons_of_mem h
  refine ⟨String.ofList before, String.ofList behind, ?_, ?_⟩
  · apply String.toList_inj.1
    rw [Script.toList_pointed, String.toList_ofList, String.toList_ofList]
    exact htoken
  · rw [String.toList_ofList]
    exact hbefore

/-- Two numerals hold the one point that is put between them. -/
theorem count_point {major minor : String} {a b : UInt32} (hmajor : Spells major.toList a.toNat)
    (hminor : Spells minor.toList b.toNat) : (major ++ "." ++ minor).toList.count '.' = 1 := by
  have hfirst : major.toList.count '.' = 0 :=
    List.count_eq_zero_of_not_mem (denotes_iff.2 hmajor).point_not_mem
  have hsecond : minor.toList.count '.' = 0 :=
    List.count_eq_zero_of_not_mem (denotes_iff.2 hminor).point_not_mem
  rw [Script.toList_pointed, List.count_append, List.count_cons_self, hfirst, hsecond]

/-! ## §2. Reading a token. -/

theorem consoleNumber_of_not_mem (h : '.' ∉ token.toList) :
    consoleNumber token = .error (.console .major token) := by
  unfold consoleNumber
  rw [Text.cut_of_not_mem h]
  rfl

/-- **A token is read if it names a console**, and gives the number of that console. -/
theorem consoleNumber_eq_ok_iff : consoleNumber token = .ok number ↔ NamesConsole token number := by
  constructor
  · intro h
    by_cases hpoint : '.' ∈ token.toList
    · obtain ⟨major, minor, rfl, hmajor⟩ := exists_pointed hpoint
      rw [Script.consoleNumber_pointed hmajor] at h
      cases hfirst : parseWord major with
      | error cause =>
        rw [hfirst] at h
        cases h
      | ok first =>
        rw [hfirst] at h
        have hsecond := parseWord_eq_ok_iff.1 (mapError_eq_ok_iff.1 h)
        have hspelled := parseWord_eq_ok_iff.1 hfirst
        exact ⟨count_point hspelled hsecond, major, minor, first, rfl, hspelled, hsecond⟩
    · rw [consoleNumber_of_not_mem hpoint] at h
      cases h
  · intro h
    obtain ⟨-, major, minor, first, rfl, hmajor, hminor⟩ := h
    exact Script.consoleNumber_of_denotes (denotes_iff.2 hmajor) (denotes_iff.2 hminor)

/-- Whatever is wrong with a token, it is the token that is told. -/
theorem consoleNumber_error {fault : Fault} (h : consoleNumber token = .error fault) :
    ∃ part, fault = .console part token := by
  by_cases hpoint : '.' ∈ token.toList
  · obtain ⟨major, minor, rfl, hmajor⟩ := exists_pointed hpoint
    rw [Script.consoleNumber_pointed hmajor] at h
    cases hfirst : parseWord major with
    | error cause =>
      rw [hfirst] at h
      cases h
      exact ⟨.major, rfl⟩
    | ok first =>
      rw [hfirst] at h
      obtain ⟨cause, -, hfault⟩ := mapError_eq_error_iff.1 h
      exact ⟨.minor, hfault.symm⟩
  · rw [consoleNumber_of_not_mem hpoint] at h
    cases h
    exact ⟨.major, rfl⟩

/-! ## §3. Selecting a console. -/

theorem selectConsole_of_ok (h : consoleNumber token = .ok number) :
    selectConsole token s = .ok () { s with console := number } := by
  have hlook : Edit.look (fun _ => consoleNumber token) s = .ok number s := Edit.look_of_ok h
  unfold selectConsole
  rw [Edit.bind_of_ok hlook]
  rfl

theorem selectConsole_of_error {fault : Fault} (h : consoleNumber token = .error fault) :
    selectConsole token s = .error fault s := by
  have hlook : Edit.look (fun _ => consoleNumber token) s = .error fault s := Edit.look_of_error h
  unfold selectConsole
  rw [Edit.bind_of_error hlook]

/-- **A token that names a console sets the console and nothing else, and any other token is refused
and sets nothing.** -/
theorem selectConsole_exact (s : Session) (token : String) :
    ((∃ after, selectConsole token s = .ok () after) ↔ ∃ number, NamesConsole token number)
      ∧ (∀ number, NamesConsole token number →
        selectConsole token s = .ok () { s with console := number }
          ∧ { s with console := number }.header = { s.header with console := number })
      ∧ ((∀ number, ¬ NamesConsole token number) →
        ∃ fault, selectConsole token s = .error fault s ∧ fault.kind = .invalidConsole) := by
  refine ⟨⟨?_, ?_⟩, ?_, ?_⟩
  · intro h
    obtain ⟨after, hafter⟩ := h
    cases hnumber : consoleNumber token with
    | ok number => exact ⟨number, consoleNumber_eq_ok_iff.1 hnumber⟩
    | error fault =>
      rw [selectConsole_of_error hnumber] at hafter
      cases hafter
  · intro h
    obtain ⟨number, hnames⟩ := h
    exact ⟨_, selectConsole_of_ok (consoleNumber_eq_ok_iff.2 hnames)⟩
  · intro number hnames
    exact ⟨selectConsole_of_ok (consoleNumber_eq_ok_iff.2 hnames), rfl⟩
  · intro hnone
    cases hnumber : consoleNumber token with
    | ok number => exact absurd (consoleNumber_eq_ok_iff.1 hnumber) (hnone number)
    | error fault =>
      obtain ⟨part, rfl⟩ := consoleNumber_error hnumber
      exact ⟨_, selectConsole_of_error hnumber, rfl⟩

/-- A number in octal behind one in hexadecimal, and the same with a third one behind them. -/
theorem selectConsole_exact_second_point :
    ∃ start, create ⟨0x1000, 0x100, 0x400⟩ .little = .ok start
      ∧ NamesConsole "0X0f.011" 9
      ∧ selectConsole "0X0f.011" start = .ok () { start with console := 9 }
      ∧ (∀ number, ¬ NamesConsole "0X0f.011.1" number)
      ∧ ∃ fault, selectConsole "0X0f.011.1" start = .error fault start
        ∧ fault.kind = .invalidConsole := by
  have hstart : ∃ start, create ⟨0x1000, 0x100, 0x400⟩ .little = .ok start := ⟨_, rfl⟩
  obtain ⟨start, hstart⟩ := hstart
  have hnames : NamesConsole "0X0f.011" 9 :=
    ⟨by decide, "0X0f", "011", 15, rfl, parseWord_eq_ok_iff.1 (by decide),
      parseWord_eq_ok_iff.1 (by decide)⟩
  have hnone : ∀ number, ¬ NamesConsole "0X0f.011.1" number := by
    intro number h
    have htwo : "0X0f.011.1".toList.count '.' = 2 := by decide
    have hone := h.1
    omega
  exact ⟨start, hstart, hnames, ((selectConsole_exact start _).2.1 9 hnames).1, hnone,
    (selectConsole_exact start _).2.2 hnone⟩

end Session
end SystemPage
