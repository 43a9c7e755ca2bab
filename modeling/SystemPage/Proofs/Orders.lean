/-
  SystemPage.Proofs.Orders — what the order of bytes decides.

  The order of bytes is looked at where a word is stored or read, and nowhere else.  So whoever
  builds a page cannot tell which order it has: everything that is asked for comes to the same.
  Only its bytes show the order, and they do in a simple way: each word of the header and of the
  records stands at the same place in both orders, with its bytes reversed, and every other byte is
  equal.

  Main results:

      Sound.fieldPlaces_eq
                       — what is read back of a page tells where its words are
      Twins.mirrors    — what nobody who asks can tell apart
      run_mirrors      — a page in either order, after any number of requests
-/
import SystemPage.Proofs.Reader
import SystemPage.Proofs.TwinWords

namespace SystemPage

open Memory SystemPage.Ring

/-! ## §1. Mirrored pages. -/

/-- The bytes of two pages whose words stand at the same places, in opposite orders. -/
structure Mirrored (places : List Nat) (little big : List UInt8) : Prop where
  length : big.length = little.length
  inside : ∀ place ∈ places, place + 4 ≤ little.length
  words : ∀ place ∈ places, (big.drop place).take 4 = ((little.drop place).take 4).reverse
  others : ∀ k, ¬ InWord places k → big[k]? = little[k]?

namespace Session

/-- The places of the words of the header and of the given records, in a page that starts at an
address. -/
def wordPlaces (base : UInt32) (maps : List AddressMap) (programs : List Program) : List Nat :=
  Header.wordFields
    ++ maps.flatMap (fun map =>
      AddressMap.wordFields.map (map.address.toNat - base.toNat + ·))
    ++ programs.flatMap fun p => Program.wordFields.map (p.address.toNat - base.toNat + ·)

/-- Two sessions that nobody who asks them for something can tell apart, with pages that are
mirrored in their words. -/
structure Mirrors (little big : Session) : Prop where
  header : big.header = little.header
  maps : big.maps = little.maps
  programs : big.programs = little.programs
  alias? : ∀ name, big.alias? name = little.alias? name
  mapId : ∀ name, big.mapId name = little.mapId name
  perform : ∀ op, (Edit.outcome (Operation.perform op) big).1
    = (Edit.outcome (Operation.perform op) little).1
  performWords : ∀ words, (Edit.outcome (Script.performWords words) big).1
    = (Edit.outcome (Script.performWords words) little).1
  insertMap : ∀ name start stop access,
    (Edit.outcome (insertMap name start stop access) big).1
      = (Edit.outcome (insertMap name start stop access) little).1
  insertProgram : ∀ payload instructionMaps dataMaps argv atOnce,
    (Edit.outcome (insertProgram payload instructionMaps dataMaps argv atOnce) big).1
      = (Edit.outcome (insertProgram payload instructionMaps dataMaps argv atOnce) little).1
  page : ∃ maps programs bytes bytes', little.maps = .ok maps ∧ little.programs = .ok programs
    ∧ (Edit.outcome complete little).1 = .ok bytes ∧ (Edit.outcome complete big).1 = .ok bytes'
    ∧ Mirrored (wordPlaces little.memory.base maps programs) bytes bytes'

end Session

/-! ## §2. Pages at the same place. -/

namespace Session.Twins

variable {inv : Inventory} {s t : Session}

/-- The header is the same in both, as soon as both pages lie at the same place. -/
theorem header_eq (h : Twins inv s t) (hbase : t.memory.base = s.memory.base) :
    t.header = s.header := by
  have hhead : ∀ places, headOf t.memory places = headOf s.memory places := by
    intro places
    cases places with
    | nil => rfl
    | cons place rest => exact address_of_base hbase place
  simp only [header, h.imageSize, h.pages.size, h.load, h.console, h.sound.mapHead,
    h.soundTwin.mapHead, h.sound.programHead, h.soundTwin.programHead, hhead]

/-- What is read back is the same in both, as soon as both pages lie at the same place. -/
theorem records_eq (h : Twins inv s t) (hbase : t.memory.base = s.memory.base) :
    t.maps = s.maps ∧ t.programs = s.programs := by
  rw [h.sound.maps_eq, h.soundTwin.maps_eq, h.sound.programs_eq, h.soundTwin.programs_eq,
    funext (MapEntry.map_of_base hbase), funext (ProgramEntry.program_of_base hbase)]
  exact ⟨rfl, rfl⟩

/-- What is added is told alike as well. -/
theorem insertMap_eq (h : Twins inv s t) (hbase : t.memory.base = s.memory.base) (name : String)
    (start stop access : UInt32) :
    (Edit.outcome (insertMap name start stop access) t).1
      = (Edit.outcome (insertMap name start stop access) s).1 :=
  (h.insertMap_abreast name start stop access).outcome_eq fun a _ b _ hanswer => by
    rw [hanswer.2.2, address_of_base hbase, ← hanswer.2.1]

theorem insertProgram_eq (h : Twins inv s t) (hbase : t.memory.base = s.memory.base)
    (payload instructionMaps dataMaps argv : String) (atOnce : Bool) :
    (Edit.outcome (insertProgram payload instructionMaps dataMaps argv atOnce) t).1
      = (Edit.outcome (insertProgram payload instructionMaps dataMaps argv atOnce) s).1 :=
  (h.insertProgram_abreast payload instructionMaps dataMaps argv atOnce).outcome_eq
    fun a _ b _ hanswer => by rw [hanswer.2.2, address_of_base hbase, ← hanswer.2.1]

end Session.Twins

/-! ## §3. Pages in opposite orders. -/

/-- A word that two pages hold in opposite orders stands there with its bytes reversed. -/
theorem Memory.BothHold.reversed {m t : Memory} {place : Nat} (h : BothHold m t place)
    (hm : m.order = .little) (ht : t.order = .big) :
    place + 4 ≤ m.bytes.length
      ∧ (t.bytes.drop place).take 4 = ((m.bytes.drop place).take 4).reverse := by
  obtain ⟨word, hword, hword'⟩ := h
  obtain ⟨behind, hdrop⟩ := hword.exists_drop
  obtain ⟨behind', hdrop'⟩ := hword'.exists_drop
  have hin := hword.inside
  rw [ByteOrder.length_encode] at hin
  refine ⟨by rw [length_bytes]; exact hin, ?_⟩
  have htake : ∀ (order : ByteOrder) (behind : List UInt8),
      (order.encode word ++ behind).take 4 = order.encode word := fun order behind =>
    List.take_left' (ByteOrder.length_encode order word)
  rw [hdrop, hdrop', htake, htake, hm, ht, ByteOrder.encode_big]

namespace Session

/-- The records that are read back tell where their words are. -/
theorem Sound.fieldPlaces_eq {s : Session} {inv : Inventory} (h : s.Sound inv)
    (mapFields programFields : List Nat) :
    ((inv.maps.map (MapEntry.map s.memory)).flatMap fun map =>
        mapFields.map (map.address.toNat - s.memory.base.toNat + ·))
      = (inv.maps.flatMap fun e => mapFields.map (e.place + ·))
    ∧ ((inv.programs.map (ProgramEntry.program s.memory)).flatMap fun p =>
        programFields.map (p.address.toNat - s.memory.base.toNat + ·))
      = inv.programs.flatMap fun e => programFields.map (e.place + ·) := by
  have hplace : ∀ place ∈ inv.mapPlaces ++ inv.programPlaces,
      (s.memory.address place).toNat - s.memory.base.toNat = place := by
    intro place hp
    have hin := (h.arranged.inside place hp).2
    have hb := h.arranged.proper.bounded
    simp only [linkSize] at hin
    rw [toNat_address (h.arranged.proper.address_lt (by omega))]
    omega
  have hmaps : ∀ e ∈ inv.maps, (e.map s.memory).address.toNat - s.memory.base.toNat = e.place :=
    fun e he => hplace _ (List.mem_append_left _ (List.mem_map_of_mem he))
  have hprograms : ∀ e ∈ inv.programs,
      (e.program s.memory).address.toNat - s.memory.base.toNat = e.place :=
    fun e he => hplace _ (List.mem_append_right _ (List.mem_map_of_mem he))
  rw [List.flatMap_map, List.flatMap_map]
  exact ⟨List.flatMap_congr fun e he => by rw [hmaps e he],
    List.flatMap_congr fun e he => by rw [hprograms e he]⟩

/-- The records that are read back tell where the words of a page are. -/
theorem Sound.wordPlaces_eq {s : Session} {inv : Inventory} (h : s.Sound inv) :
    wordPlaces s.memory.base (inv.maps.map (MapEntry.map s.memory))
      (inv.programs.map (ProgramEntry.program s.memory)) = inv.wordPlaces := by
  obtain ⟨hmaps, hprograms⟩ := h.fieldPlaces_eq AddressMap.wordFields Program.wordFields
  rw [wordPlaces, hmaps, hprograms, Inventory.wordPlaces]

/-- **What nobody who asks can tell apart.** -/
theorem Twins.mirrors {inv : Inventory} {s t : Session} (h : Twins inv s t)
    (hbase : t.memory.base = s.memory.base) (hs : s.memory.order = .little)
    (ht : t.memory.order = .big) : Mirrors s t where
  header := h.header_eq hbase
  maps := (h.records_eq hbase).1
  programs := (h.records_eq hbase).2
  alias? := h.alias?_eq
  mapId := h.mapId_eq
  perform := fun op => (h.perform_abreast op).outcome_eq fun _ _ _ _ _ => rfl
  performWords := fun words => (h.performWords_abreast words).outcome_eq fun _ _ _ _ _ => rfl
  insertMap := h.insertMap_eq hbase
  insertProgram := h.insertProgram_eq hbase
  page := by
    obtain ⟨after, after', hcomplete, hcomplete', hplace, hplace', hheader, hheader', hafter⟩ :=
      h.complete_abreast
    refine ⟨_, _, after.memory.bytes, after'.memory.bytes, h.sound.maps_eq, h.sound.programs_eq,
      ?_, ?_, ?_⟩
    · rw [Edit.outcome, hcomplete]
    · rw [Edit.outcome, hcomplete']
    rw [h.sound.wordPlaces_eq]
    have hbase' : after'.memory.base = after.memory.base := by
      rw [hplace.base, hplace'.base, hbase]
    have hwords := (hafter.words_abreast hheader hheader').bothHold hbase'
    have hreversed := fun place hp =>
      (hwords place hp).reversed (hplace.order.trans hs) (hplace'.order.trans ht)
    refine ⟨?_, fun place hp => (hreversed place hp).1, fun place hp => (hreversed place hp).2, ?_⟩
    · rw [length_bytes, length_bytes]
      exact hafter.pages.size
    · intro k hk
      rw [getElem?_bytes, getElem?_bytes, hafter.pages.size, hafter.pages.same k hk]

/-- A placement is accepted in every order of bytes or in none, and the order is all that the
sessions at the start differ in. -/
theorem create_order {place : Placement} {order : ByteOrder} {start : Session}
    (h : Session.create place order = .ok start) (other : ByteOrder) :
    Session.create place other
      = .ok { start with memory := { start.memory with order := other } } := by
  unfold Session.create Memory.create at h ⊢
  dsimp only at h ⊢
  split at h
  · cases h
  · next hstart =>
    split at h
    · cases h
    · next hend =>
      split at h
      · cases h
      · next hheader =>
        cases h
        rw [if_neg hstart, if_neg hend, if_neg hheader]
        rfl

/-- **A page in either order, after any number of requests.** -/
theorem run_mirrors {place : Placement} {order : ByteOrder} {start : Session}
    (h : Session.create place order = .ok start) (ops : List Operation) :
    ∃ little big, Session.create place .little = .ok little ∧ Session.create place .big = .ok big
      ∧ Mirrors (little.run ops) (big.run ops) := by
  have hlittle := create_order h .little
  have hbig := create_order h .big
  refine ⟨_, _, hlittle, hbig, ?_⟩
  have hsound := create_sound hlittle
  have hsound' := create_sound hbig
  have htwins : Twins ⟨[], []⟩ { start with memory := { start.memory with order := .little } }
      { start with memory := { start.memory with order := .big } } :=
    ⟨hsound, hsound', ⟨hsound.arranged.proper, hsound'.arranged.proper, rfl, rfl, fun _ _ => rfl⟩,
      rfl, rfl, rfl, rfl⟩
  obtain ⟨inv, hrun⟩ := htwins.run ops
  have hplace := hsound.run_samePlace ops
  have hplace' := hsound'.run_samePlace ops
  exact hrun.mirrors (hplace'.base.trans hplace.base.symm) hplace.order hplace'.order

/-- Pages with a payload, two maps, one that is refused, and a program. -/
theorem run_mirrors_refused :
    ∃ little big, Session.create ⟨0x1000, 0x100, 0x400⟩ .little = .ok little
      ∧ Session.create ⟨0x1000, 0x100, 0x400⟩ .big = .ok big
      ∧ Mirrors (little.run [.command (.payload "psh" 0x400 0x80),
          .command (.map "ddr" 0x100 0x200 3), .command (.map "tcm" 0x180 0x280 3),
          .command (.map "oct" 0x200 0x280 3),
          .command (.program "psh" "ddr" "ddr;oct" "psh;-v" true)])
        (big.run [.command (.payload "psh" 0x400 0x80),
          .command (.map "ddr" 0x100 0x200 3), .command (.map "tcm" 0x180 0x280 3),
          .command (.map "oct" 0x200 0x280 3),
          .command (.program "psh" "ddr" "ddr;oct" "psh;-v" true)]) := by
  have hstart : Session.create ⟨0x1000, 0x100, 0x400⟩ .big
      = .ok ⟨⟨0x1100, 0x400, .big, 24, .blank⟩, 0x1000, 0, 0, 0, 0, []⟩ := rfl
  exact run_mirrors hstart _

end Session
end SystemPage
