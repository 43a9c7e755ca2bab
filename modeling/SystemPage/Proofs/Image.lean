/-
  SystemPage.Proofs.Image — what a run does to the files.

  A run looks at three files and changes one of them at most, in its last step.  So a run that does
  not finish leaves all of them as they were, and a run that finishes has put a page into the image.
  When a run finishes is said without it: by what the arguments ask for, by what the paths lead to,
  and by what the two scripts do to an empty page.  The audit before the last step does not show,
  since a page that was built from scripts passes it.

  All of this holds for any storage and for any reader of the arguments that reads what is
  documented.

  Main results:

      build_eq_ok_iff    — when a build finishes, and what it comes to
      Overwritten.splice — what stands where in an image that a page was put into
      Leaves.of_reader   — what a run leaves of a storage, by what the reader answers
      Storage.run_files  — the same, by what is written in the arguments
-/
import SystemPage.CommandLine.Run
import SystemPage.Proofs.Arguments

namespace SystemPage.CommandLine

variable {ι : Type} {st : Storage ι}

/-! ## §1. What a build needs. -/

/-- A path leads to a script of the given text, and nothing keeps it from being read.  A device that
has nothing to read has no text. -/
def Storage.Reads (st : Storage ι) (path source : String) : Prop :=
  ∃ there, st.place path = .ok there ∧ st.unread there = none
    ∧ (st.node there = some (.file (Text.Utf8.bytes source))
      ∨ st.node there = some .null ∧ source = "")

/-- A path leads to an image, and nothing keeps the page from being put into it. -/
def Storage.Takes (st : Storage ι) (path : String) (start : Nat) (page : List UInt8) : Prop :=
  ∃ there, st.place path = .ok there ∧ st.unwritten there start page = none
    ∧ ((∃ old, st.node there = some (.file old)) ∨ st.node there = some .null)

/-- The two scripts of a build, performed on an empty page, leave a session, and the page of that
session is complete with the given bytes. -/
def Builds (st : Storage ι) (o : Options) (built : Session) (page : List UInt8) : Prop :=
  ∃ preinit user empty final, st.Reads o.preinit preinit ∧ st.Reads o.user user
    ∧ Session.create o.placement o.order = .ok empty
    ∧ Script.performScripts [(o.preinit, preinit), (o.user, user)] empty = .ok () built
    ∧ Session.complete built = .ok page final

/-- Bytes are a text exactly when they are the bytes of one. -/
theorem scriptText_eq_ok_iff {path : String} {bytes : List UInt8} {source : String} :
    scriptText path bytes = .ok source ↔ bytes = Text.Utf8.bytes source := by
  unfold scriptText
  cases hd : Text.Utf8.decode? bytes with
  | none =>
    -- no text has these bytes
    refine ⟨nofun, fun hbytes => ?_⟩
    rw [Text.Utf8.decode?_eq_some_iff.2 hbytes] at hd
    cases hd
  | some cs =>
    rw [Text.Utf8.decode?_eq_some_iff] at hd
    subst hd
    simp only [Except.ok.injEq]
    constructor
    · rintro rfl
      rw [Text.Utf8.bytes, String.toList_ofList]
    · intro hbytes
      have hcs := congrArg Text.Utf8.decode hbytes
      rw [Text.Utf8.bytes, Text.Utf8.decode_encode, Text.Utf8.decode_encode] at hcs
      rw [hcs, String.ofList_toList]

theorem bytes_eq_nil_iff {source : String} : Text.Utf8.bytes source = [] ↔ source = "" := by
  constructor
  · intro h
    rw [← Text.Utf8.text_bytes source, h]
    rfl
  · rintro rfl
    rfl

theorem readScript_eq_ok_iff {path source : String} :
    readScript st.files path = .ok source ↔ st.Reads path source := by
  unfold readScript
  rw [show st.files.script path = st.script path from rfl]
  unfold Storage.script Storage.Reads
  cases st.place path with
  | error cause => simp
  | ok there =>
    simp only [Except.ok.injEq, exists_eq_left']
    cases st.node there with
    | none => simp
    | some node =>
      cases st.unread there with
      | some refusal => simp
      | none =>
        cases node with
        | file bytes => simp [Node.script, scriptText_eq_ok_iff]
        | null => simp [Node.script, scriptText_eq_ok_iff, bytes_eq_nil_iff]
        | directory | full => simp [Node.script]

/-- A path leads to one script at most. -/
theorem Storage.Reads.unique {path source source' : String} (h : st.Reads path source)
    (h' : st.Reads path source') : source = source' := by
  rw [← readScript_eq_ok_iff] at h h'
  rw [h] at h'
  exact Except.ok.inj h'

theorem putIntoImage_eq_ok_iff {path : String} {start : Nat} {page : List UInt8}
    {image : Option (List UInt8)} :
    putIntoImage st.files path start page = .ok image
      ↔ ∃ there, st.place path = .ok there ∧ st.unwritten there start page = none
        ∧ ((∃ old, st.node there = some (.file old) ∧ image = some (splice old start page))
          ∨ st.node there = some .null ∧ image = none) := by
  unfold putIntoImage
  rw [show st.files.image path start page = st.image path start page from rfl]
  unfold Storage.image
  cases st.place path with
  | error cause => simp
  | ok there =>
    simp only [Except.ok.injEq, exists_eq_left']
    cases st.node there with
    | none => simp
    | some node =>
      cases st.unwritten there start page with
      | some refusal => simp
      | none => cases node <;> simp [Node.image, eq_comm]

/-- An image takes a page exactly when putting it there finishes. -/
theorem takes_iff {path : String} {start : Nat} {page : List UInt8} :
    st.Takes path start page ↔ ∃ image, putIntoImage st.files path start page = .ok image := by
  simp only [putIntoImage_eq_ok_iff]
  constructor
  · rintro ⟨there, hplace, hunwritten, ⟨old, hnode⟩ | hnode⟩
    · exact ⟨_, there, hplace, hunwritten, .inl ⟨old, hnode, rfl⟩⟩
    · exact ⟨_, there, hplace, hunwritten, .inr ⟨hnode, rfl⟩⟩
  · rintro ⟨image, there, hplace, hunwritten, ⟨old, hnode, -⟩ | ⟨hnode, -⟩⟩
    · exact ⟨there, hplace, hunwritten, .inl ⟨old, hnode⟩⟩
    · exact ⟨there, hplace, hunwritten, .inr hnode⟩

/-! ## §2. When a build finishes. -/

theorem tell_eq_ok_iff {told notes after : List Note} {u : Unit} :
    tell told notes = .ok u after ↔ notes ++ told = after := by
  show EStateM.Result.ok () (notes ++ told) = .ok u after ↔ _
  simp

theorem require_eq_ok_iff {α : Type} {found : Except Fault α} {notes after : List Note} {a : α} :
    require found notes = .ok a after ↔ found = .ok a ∧ notes = after :=
  Edit.look_eq_ok_iff

/-- What a script does to a session does not depend on what was told before. -/
theorem performScript_eq_ok_iff {path : String} {s t : Session} {notes after : List Note} :
    performScript st.files path s notes = .ok t after
      ↔ ∃ source, st.Reads path source ∧ Script.perform path source s = .ok () t
        ∧ notes ++ .running path :: Script.notes s source = after := by
  unfold performScript
  simp only [Edit.bind_eq_ok_iff, require_eq_ok_iff, tell_eq_ok_iff, readScript_eq_ok_iff,
    Edit.outcome]
  constructor
  · rintro ⟨source, _, ⟨hsource, rfl⟩, _, _, rfl, h⟩
    refine ⟨source, hsource, ?_⟩
    cases hperform : Script.perform path source s with
    | error fault left =>
      rw [hperform] at h
      obtain ⟨_, _, ⟨hfault, -⟩, -⟩ := h
      cases hfault
    | ok u left =>
      rw [hperform] at h
      obtain ⟨_, _, ⟨-, rfl⟩, hleft⟩ := h
      cases hleft
      exact ⟨rfl, rfl⟩
  · rintro ⟨source, hsource, hperform, rfl⟩
    refine ⟨source, notes, ⟨hsource, rfl⟩, (), _, rfl, ?_⟩
    rw [hperform]
    exact ⟨(), _, ⟨rfl, rfl⟩, rfl⟩

/-- A page that was built from scripts can be completed. -/
theorem Builds.of_scripts {o : Options} {preinit user : String} {empty built : Session}
    (hpreinit : st.Reads o.preinit preinit) (huser : st.Reads o.user user)
    (hcreate : Session.create o.placement o.order = .ok empty)
    (hperform : Script.performScripts [(o.preinit, preinit), (o.user, user)] empty = .ok () built) :
    built.audit = .ok () ∧ ∃ page, Builds st o built page := by
  obtain ⟨commands, -, hall⟩ := Script.performScripts_eq_ok_iff.1 hperform
  obtain ⟨inv, hsound, -⟩ := (Session.create_sound hcreate).performAll hall
  obtain ⟨memory, hcomplete, -⟩ := hsound.complete_eq
  exact ⟨hsound.audit_eq, _, preinit, user, empty, _, hpreinit, huser, hcreate, hperform, hcomplete⟩

/-- A build comes to one page at most. -/
theorem Builds.unique {o : Options} {built built' : Session} {page page' : List UInt8}
    (h : Builds st o built page) (h' : Builds st o built' page') :
    built = built' ∧ page = page' := by
  obtain ⟨preinit, user, empty, final, hpreinit, huser, hcreate, hscripts, hcomplete⟩ := h
  obtain ⟨_, _, _, _, hpreinit', huser', hcreate', hscripts', hcomplete'⟩ := h'
  obtain rfl := hpreinit.unique hpreinit'
  obtain rfl := huser.unique huser'
  rw [hcreate] at hcreate'
  cases hcreate'
  rw [hscripts] at hscripts'
  cases hscripts'
  rw [hcomplete] at hcomplete'
  cases hcomplete'
  exact ⟨rfl, rfl⟩

/-- A page is as long as its header says. -/
theorem Builds.length_eq {o : Options} {built : Session} {page : List UInt8}
    (h : Builds st o built page) : page.length = built.header.size.toNat := by
  obtain ⟨preinit, user, empty, final, -, -, hcreate, hscripts, hcomplete⟩ := h
  obtain ⟨commands, -, hall⟩ := Script.performScripts_eq_ok_iff.1 hscripts
  obtain ⟨inv, hsound, hplace⟩ := (Session.create_sound hcreate).performAll hall
  obtain ⟨memory, hcomplete', hsize, -⟩ := hsound.complete_eq
  rw [hcomplete'] at hcomplete
  cases hcomplete
  -- the size is stored in a word, and it never exceeds the capacity, which is one
  have hlt : built.memory.size < 2 ^ 32 := by
    have hbounded := hsound.arranged.proper.bounded
    have hcapacity : built.memory.capacity = o.placement.capacity.toNat := by
      rw [hplace.capacity, (Session.create_eq hcreate).1]
    exact Nat.lt_of_le_of_lt (hcapacity ▸ hbounded) o.placement.capacity.toNat_lt
  show memory.bytes.length = (UInt32.ofNat built.memory.size).toNat
  rw [Memory.length_bytes, hsize, UInt32.toNat_ofNat', Nat.mod_eq_of_lt hlt]

/-- **A build finishes exactly when its scripts build a page and the image takes it.** -/
theorem build_eq_ok_iff {o : Options} {image : Option (List UInt8)} :
    (∃ final notes, build o st.files [] = .ok ⟨final, image⟩ notes)
      ↔ ∃ built page, Builds st o built page
        ∧ putIntoImage st.files o.image o.placement.offset.toNat page = .ok image := by
  unfold build
  simp only [Edit.bind_eq_ok_iff, require_eq_ok_iff, tell_eq_ok_iff, performScript_eq_ok_iff,
    Edit.outcome]
  constructor
  · rintro ⟨final, notes, _, _, rfl, empty, _, ⟨hcreate, rfl⟩, _, _, rfl, prepared, _,
      ⟨preinit, hpreinit, hprepared, rfl⟩, _, _, rfl, built, _, ⟨user, huser, hbuilt, rfl⟩,
      _, _, rfl, _, _, ⟨-, rfl⟩, page, _, ⟨hpage, rfl⟩, taken, _, ⟨htaken, rfl⟩, _, _, rfl,
      hproduct⟩
    cases hcomplete : Session.complete built with
    | error fault left =>
      rw [hcomplete] at hpage
      cases hpage
    | ok page' left =>
      rw [hcomplete] at hpage hproduct
      cases hpage
      cases hproduct
      have hscripts : Script.performScripts [(o.preinit, preinit), (o.user, user)] empty
          = .ok () built :=
        Edit.then_eq_ok_iff.2 ⟨prepared, hprepared, Edit.then_eq_ok_iff.2 ⟨built, hbuilt, rfl⟩⟩
      exact ⟨built, page, ⟨preinit, user, empty, _, hpreinit, huser, hcreate, hscripts, hcomplete⟩,
        htaken⟩
  · rintro ⟨built, page, ⟨preinit, user, empty, final, hpreinit, huser, hcreate, hscripts,
      hcomplete⟩, htaken⟩
    have haudit := (Builds.of_scripts hpreinit huser hcreate hscripts).1
    obtain ⟨prepared, hprepared, hrest⟩ := Edit.then_eq_ok_iff.1 hscripts
    obtain ⟨_, hbuilt, hnone⟩ := Edit.then_eq_ok_iff.1 hrest
    cases hnone
    refine ⟨final, ?notes, (), _, rfl, empty, _, ⟨hcreate, rfl⟩, (), _, rfl, prepared, _,
      ⟨preinit, hpreinit, hprepared, rfl⟩, (), _, rfl, built, _, ⟨user, huser, hbuilt, rfl⟩,
      (), _, rfl, (), _, ⟨haudit, rfl⟩, page, _, ⟨by rw [hcomplete], rfl⟩, image, _,
      ⟨htaken, rfl⟩, (), _, rfl, ?product⟩
    case product =>
      rw [hcomplete]
      rfl

/-! ## §3. What stands where in the image. -/

/-- The new bytes are the old ones with a page over them, from position `start` on. -/
structure Overwritten (old : List UInt8) (start : Nat) (page new : List UInt8) : Prop where
  length : new.length = max old.length (start + page.length)
  inside : ∀ i, i < page.length → new[start + i]? = page[i]?
  before : ∀ i, i < start → new[i]? = some (old[i]?.getD 0)
  behind : ∀ i, start + page.length ≤ i → new[i]? = old[i]?

/-- **Putting a page into an image writes over what it reaches and nothing else.** -/
theorem Overwritten.splice (old : List UInt8) (start : Nat) (page : List UInt8) :
    Overwritten old start page (splice old start page) where
  length := length_splice old start page
  inside := getElem?_splice_inside old start page
  before := by
    intro i hi
    rw [getElem?_splice_outside old start page i (.inl hi), if_pos hi]
  behind := by
    intro i hi
    rw [getElem?_splice_outside old start page i (.inr hi), if_neg (by omega)]

/-! ## §4. What a run leaves. -/

namespace Storage

/-- A storage in which a page was put into the file that a path leads to.  If it leads to a device,
or nowhere, all is as before. -/
structure Rewrites (st after : Storage ι) (path : String) (start : Nat) (page : List UInt8) :
    Prop where
  image : ∀ there old, st.place path = .ok there → st.node there = some (.file old) →
    ∃ new, after.node there = some (.file new) ∧ Overwritten old start page new
  others : ∀ i, (st.place path = .ok i → ∀ old, st.node i ≠ some (.file old)) →
    after.node i = st.node i
  paths : after.place = st.place

/-- What a run leaves of a storage, where `asked` tells the options that its arguments ask for.  A
run that does not finish leaves everything.  One that finishes has built a page of the size that its
header tells, and has put it into the image. -/
structure Leaves (st : Storage ι) (result : Outcome × Storage ι) (asked : Options → Prop) :
    Prop where
  failed : result.1.status ≠ 0 → result.2 = st
  finished : result.1.status = 0 ↔ ∃ o built page, asked o ∧ Builds st o built page
    ∧ st.Takes o.image o.placement.offset.toNat page
  rewritten : ∀ o built page, asked o → Builds st o built page →
    st.Takes o.image o.placement.offset.toNat page → page.length = built.header.size.toNat
      ∧ st.Rewrites result.2 o.image o.placement.offset.toNat page

variable {reader : Reader} {arguments : List String}

/-- How much a build is asked to tell makes no difference to what it does. -/
theorem Leaves.of_documented {result : Outcome × Storage ι}
    (h : st.Leaves result fun o => reader arguments = .ok o) (hreader : reader.Documented) :
    st.Leaves result (AskedBy arguments) where
  failed := h.failed
  finished := by
    rw [h.finished]
    constructor
    · rintro ⟨o, built, page, hread, hbuilds, htakes⟩
      exact ⟨o, built, page, hreader.asked arguments o hread, hbuilds, htakes⟩
    · rintro ⟨o, built, page, hasked, hbuilds, htakes⟩
      obtain ⟨verbosity, hread⟩ := hreader.accepted arguments o hasked
      exact ⟨_, built, page, hread, hbuilds, htakes⟩
  rewritten := by
    intro o built page hasked hbuilds htakes
    obtain ⟨verbosity, hread⟩ := hreader.accepted arguments o hasked
    have hrewritten := h.rewritten _ built page hread hbuilds htakes
    exact hrewritten

variable [DecidableEq ι]

/-- An image that takes a page is rewritten, if it keeps it. -/
theorem rewrites_of_put {path : String} {start : Nat} {page : List UInt8}
    {image : Option (List UInt8)} (h : putIntoImage st.files path start page = .ok image) :
    st.Rewrites (image.elim st (st.put path)) path start page := by
  obtain ⟨there, hplace, -, ⟨old, hnode, rfl⟩ | ⟨hnode, rfl⟩⟩ := putIntoImage_eq_ok_iff.1 h
  · have hput : st.put path (splice old start page) = { st with
        node := fun i => if i = there then some (.file (splice old start page))
          else st.node i } := by
      unfold put
      rw [hplace]
    show st.Rewrites (st.put path (splice old start page)) path start page
    rw [hput]
    refine ⟨?_, ?_, rfl⟩
    · intro there' old' hplace' hnode'
      rw [hplace] at hplace'
      cases hplace'
      rw [hnode] at hnode'
      cases hnode'
      exact ⟨_, if_pos rfl, .splice old start page⟩
    · intro i hother
      refine if_neg ?_
      rintro rfl
      exact hother hplace old hnode
  · refine ⟨?_, fun _ _ => rfl, rfl⟩
    intro there' old' hplace' hnode'
    rw [hplace] at hplace'
    cases hplace'
    rw [hnode] at hnode'
    cases hnode'

/-- A run that was asked for a build goes the way of the build. -/
theorem run_build (st : Storage ι) {o : Options} (h : reader arguments = .ok o) :
    (∃ image, (st.run reader arguments).1.status = 0
        ∧ (∃ built page, Builds st o built page
          ∧ putIntoImage st.files o.image o.placement.offset.toNat page = .ok image)
        ∧ (st.run reader arguments).2 = image.elim st (st.put o.image))
      ∨ (st.run reader arguments).1.status = 1 ∧ (st.run reader arguments).2 = st
        ∧ ∀ built page image, Builds st o built page →
          putIntoImage st.files o.image o.placement.offset.toNat page ≠ .ok image := by
  unfold run CommandLine.run outcomeOfBuild
  simp only [h]
  cases hbuild : build o st.files [] with
  | ok product notes =>
    obtain ⟨final, image⟩ := product
    refine .inl ⟨image, ?_, build_eq_ok_iff.1 ⟨final, notes, hbuild⟩, ?_⟩
    · cases image <;> rfl
    · cases image <;> rfl
  | error fault notes =>
    refine .inr ⟨rfl, rfl, ?_⟩
    intro built page image hbuilds hput
    obtain ⟨final, notes', hbuild'⟩ := build_eq_ok_iff.2 ⟨built, page, hbuilds, hput⟩
    rw [hbuild] at hbuild'
    cases hbuild'

/-- What a run leaves of a storage, by what the reader of the arguments answers. -/
theorem Leaves.of_reader (st : Storage ι)
    (htold : ∀ output, reader arguments ≠ .error (.told output)) :
    st.Leaves (st.run reader arguments) fun o => reader arguments = .ok o := by
  cases hread : reader arguments with
  | error ending =>
    cases ending with
    | told output => exact absurd hread (htold output)
    | refused errors =>
      have hrun : st.run reader arguments = (⟨2, "", errors, none⟩, st) := by
        unfold run CommandLine.run
        rw [hread]
      rw [hrun]
      exact ⟨fun _ => rfl, by simp, by simp⟩
  | ok o =>
    simp only [Except.ok.injEq]
    rcases run_build st hread with ⟨image, hstatus, ⟨built, page, hbuilds, hput⟩, hafter⟩ |
      ⟨hstatus, hafter, hnone⟩
    · have htakes : st.Takes o.image o.placement.offset.toNat page := takes_iff.2 ⟨image, hput⟩
      refine ⟨fun hne => absurd hstatus hne,
        ⟨fun _ => ⟨o, built, page, rfl, hbuilds, htakes⟩, fun _ => hstatus⟩, ?_⟩
      rintro _ built' page' rfl hbuilds' -
      obtain ⟨rfl, rfl⟩ := hbuilds.unique hbuilds'
      refine ⟨hbuilds.length_eq, ?_⟩
      rw [hafter]
      exact rewrites_of_put hput
    · -- nothing was put into the image, so that the build lacks something
      have hlacks : ∀ built page, Builds st o built page →
          ¬ st.Takes o.image o.placement.offset.toNat page := by
        intro built page hbuilds htakes
        obtain ⟨image, hput⟩ := takes_iff.1 htakes
        exact hnone built page image hbuilds hput
      refine ⟨fun _ => hafter, ⟨fun hzero => ?_, ?_⟩, ?_⟩
      · rw [hstatus] at hzero
        cases hzero
      · rintro ⟨_, built, page, rfl, hbuilds, htakes⟩
        exact absurd htakes (hlacks built page hbuilds)
      · rintro _ built page rfl hbuilds htakes
        exact absurd htakes (hlacks built page hbuilds)

/-- **A run either leaves the storage as it was, or it has put a page into the image.**  It finishes
exactly where the arguments ask for a build, its scripts build a page and the image takes it. -/
theorem run_files (hreader : reader.Documented) (st : Storage ι) (arguments : List String)
    (htold : ∀ output, reader arguments ≠ .error (.told output)) :
    st.Leaves (st.run reader arguments) (AskedBy arguments) :=
  (Leaves.of_reader st htold).of_documented hreader

end Storage

namespace Workspace

/-- A page behind the end of its image, from one script with a map and one without a line.  The
image is named from the top of the system. -/
theorem run_files_behind_end :
    ∃ (w : Workspace) (o : Options) (built : Session) (page new : List UInt8),
      w = ⟨[("p", .file (Text.Utf8.bytes "map ddr 0x100 0x200 r\n")), ("u", .file []),
        ("i", .file [1, 2])]⟩
      ∧ AskedBy ["-s0x1000:4:0x100", "-vp", "p", "-u=u", "--image", "/work/i"] o
      ∧ Builds (w.storage home) o built page
      ∧ entry? (w.run ["-s0x1000:4:0x100", "-vp", "p", "-u=u", "--image", "/work/i"]).2 "i"
        = some (.file new)
      ∧ Overwritten [1, 2] 4 page new := by
  obtain ⟨w, hw⟩ : ∃ w : Workspace, w = ⟨[("p", .file (Text.Utf8.bytes "map ddr 0x100 0x200 r\n")),
    ("u", .file []), ("i", .file [1, 2])]⟩ := ⟨_, rfl⟩
  obtain ⟨arguments, harguments⟩ : ∃ arguments,
    arguments = ["-s0x1000:4:0x100", "-vp", "p", "-u=u", "--image", "/work/i"] := ⟨_, rfl⟩
  have hparse : parse arguments
      = .ok ⟨⟨0x1000, 4, 0x100⟩, "p", "u", "/work/i", .little, 1⟩ := by
    rw [harguments]
    decide +kernel
  have hstatus : ((w.storage home).run parse arguments).1.status = 0 := by
    rw [hw, harguments]
    decide +kernel
  have hplace : (w.storage home).place "/work/i" = .ok ["work", "i"] := by
    rw [hw]
    decide +kernel
  have hnode : (w.storage home).node ["work", "i"] = some (.file [1, 2]) := by
    rw [hw]
    decide +kernel
  have hleaves := Storage.run_files parse_documented (w.storage home) arguments
    (by rw [hparse]; simp)
  obtain ⟨o, built, page, hasked, hbuilds, htakes⟩ := hleaves.finished.1 hstatus
  -- what is asked for is what is read, apart from the verbosity
  obtain ⟨verbosity, hread⟩ := parse_documented.accepted arguments o hasked
  have ho := Except.ok.inj (hparse.symm.trans hread)
  have himage : "/work/i" = o.image := congrArg Options.image ho
  have hplacement : ⟨0x1000, 4, 0x100⟩ = o.placement := congrArg Options.placement ho
  have hrewrites := (hleaves.rewritten o built page hasked hbuilds htakes).2
  rw [← himage, ← hplacement] at hrewrites
  obtain ⟨new, hnew, hover⟩ := hrewrites.image _ _ hplace hnode
  subst harguments
  refine ⟨w, o, built, page, new, hw, hasked, hbuilds, ?_, hover⟩
  -- the file is read back from its place
  show entry? (w.readBack home ((w.storage home).run parse _).2) "i" = _
  generalize ((w.storage home).run parse _).2 = after at hnew
  rw [hw]
  show some ((after.node ["work", "i"]).getD _) = _
  rw [hnew]
  rfl

end Workspace
end SystemPage.CommandLine
