/-
  SystemPage.Proofs.Payloads — what a session knows of payloads after any number of requests.

  A session does not keep the requests that named payloads.  It keeps the names with the addresses
  once the image is loaded, and how far the payloads reach into the image.  Both are told here from
  the requests: the payload of a name is the one that was named last, and the image is as large as
  the payload that reaches furthest, also where its name was given to another one since.

  Main results:

      fits_iff_sums?   — the three sums of a payload are words exactly if the last one is
      insertAlias_decides
                       — which payloads are accepted, and why the others are not
      Granted.lists    — what a request that was granted adds to the payloads
      run_payloads     — what a session knows of payloads after a run
-/
import SystemPage.Proofs.Composition

namespace SystemPage

/-! ## §1. Payloads. -/

/-- A payload as it is named: its place is counted from the start of the image. -/
structure Payload where
  name : String
  place : UInt32
  size : UInt32
  deriving DecidableEq, Repr

namespace Payload

/-- The place after its last byte. -/
def reach (p : Payload) : Nat := p.place.toNat + p.size.toNat

/-- Whether it ends inside the address space once the image is loaded. -/
def Fits (load : UInt32) (p : Payload) : Prop :=
  load.toNat + p.place.toNat + p.size.toNat < addressSpace

/-- The place after its last byte and, once the image is loaded, its address and the address after
its last byte, if each of them is a word. -/
def sums? (load : UInt32) (p : Payload) : Option (UInt32 × UInt32 × UInt32) :=
  Session.payloadSums? load p.place p.size

/-- How a session keeps it. -/
def toAlias (load : UInt32) (p : Payload) : Alias := ⟨p.name, p.place + load, p.size⟩

/-- Whether it is the last payload of its name. -/
def Newest (defined : List Payload) (p : Payload) : Prop :=
  ∃ older newer, defined = older ++ p :: newer ∧ ∀ q ∈ newer, q.name ≠ p.name

/-- How far payloads reach into the image. -/
def furthest (defined : List Payload) : Nat := (defined.map reach).foldl max 0

/-- **The three sums are words exactly if the last one is.** -/
theorem fits_iff_sums? {load : UInt32} {p : Payload} :
    p.Fits load ↔ ∃ sums, p.sums? load = some sums := by
  unfold Fits sums?
  rw [Session.payloadSums?_eq]
  by_cases hfits : addressSpace ≤ p.place.toNat + load.toNat + p.size.toNat
  · rw [if_pos hfits]
    simp only [reduceCtorEq, exists_false, iff_false]
    omega
  · rw [if_neg hfits]
    simp only [Option.some.injEq, exists_eq', iff_true]
    omega

/-- No sum wraps around for a payload that fits. -/
theorem Fits.exact {load : UInt32} {p : Payload} (h : p.Fits load) :
    (p.place + p.size).toNat = p.reach
      ∧ (p.toAlias load).address.toNat = p.place.toNat + load.toNat
      ∧ (p.toAlias load).stop.toNat = (p.toAlias load).address.toNat + p.size.toNat := by
  unfold Fits at h
  obtain ⟨-, hreach⟩ := sum?_of_lt (a := p.place) (b := p.size) (by omega)
  obtain ⟨-, haddress⟩ := sum?_of_lt (a := p.place) (b := load) (by omega)
  obtain ⟨-, hstop⟩ := sum?_of_lt (a := p.place + load) (b := p.size) (by omega)
  exact ⟨hreach, haddress, hstop⟩

/-- The newest payload of a name is the first one from the end. -/
theorem Newest.find?_eq {defined : List Payload} {p : Payload} (h : Newest defined p) :
    defined.reverse.find? (·.name = p.name) = some p := by
  obtain ⟨older, newer, rfl, hnewer⟩ := h
  have hnone : newer.reverse.find? (·.name = p.name) = none := by simpa using hnewer
  rw [List.reverse_append, List.reverse_cons, List.append_assoc, List.find?_append, hnone]
  simp

/-- Every name that was given has a newest payload. -/
theorem exists_newest {defined : List Payload} {p : Payload} (hp : p ∈ defined) :
    ∃ q, Newest defined q ∧ q.name = p.name := by
  induction defined generalizing p with
  | nil => cases hp
  | cons first rest ih =>
    by_cases hrest : ∃ q ∈ rest, q.name = p.name
    · -- the name is given again further down
      obtain ⟨q, hq, hname⟩ := hrest
      obtain ⟨r, ⟨older, newer, hsplit, hnewer⟩, hlast⟩ := ih hq
      exact ⟨r, ⟨first :: older, newer, by rw [hsplit, List.cons_append], hnewer⟩,
        hlast.trans hname⟩
    · rcases List.mem_cons.1 hp with rfl | hp
      · exact ⟨p, ⟨[], rest, rfl, fun q hq hname => hrest ⟨q, hq, hname⟩⟩, rfl⟩
      · exact absurd ⟨p, hp, rfl⟩ hrest

/-- The greater of two words is the greater number. -/
theorem toNat_max (a b : UInt32) : (max a b).toNat = max a.toNat b.toNat := by
  show (if a ≤ b then b else a).toNat = _
  by_cases h : a ≤ b
  · rw [if_pos h, Nat.max_eq_right (UInt32.le_iff_toNat_le.1 h)]
  · have hlt := Nat.lt_of_not_le fun hle => h (UInt32.le_iff_toNat_le.2 hle)
    rw [if_neg h, Nat.max_eq_left (Nat.le_of_lt hlt)]

theorem furthest_concat (defined : List Payload) (p : Payload) :
    furthest (defined ++ [p]) = max (furthest defined) p.reach := by
  unfold furthest
  rw [List.map_append, List.foldl_append]
  rfl

end Payload

/-- The payload that a request names. -/
def Operation.payload? : Operation → Option Payload
  | .command (.payload name place size) => some ⟨name, place, size⟩
  | _ => none

/-- The payloads that requests name, the oldest first. -/
def payloadsOf (ops : List Operation) : List Payload := ops.filterMap Operation.payload?

namespace Session

variable {s : Session} {load : UInt32} {defined : List Payload}

/-! ## §2. What a request does. -/

/-- Which payloads a session accepts, and why it refuses the others. -/
structure Decides (s : Session) (p : Payload) : Prop where
  tooLong : (∃ after, Edit.verdict (insertAlias p.name p.place p.size) s
      = (.error .nameTooLong, after)) ↔ 31 < (Text.Utf8.bytes p.name).length
  outside : (∃ after, Edit.verdict (insertAlias p.name p.place p.size) s
      = (.error .invalidArgument, after))
    ↔ (Text.Utf8.bytes p.name).length ≤ 31
      ∧ 2 ^ 32 ≤ s.load.toNat + p.place.toNat + p.size.toNat
  accepted : (∃ after, Edit.verdict (insertAlias p.name p.place p.size) s = (.ok (), after))
    ↔ (Text.Utf8.bytes p.name).length ≤ 31 ∧ ∃ sums, p.sums? s.load = some sums
  unchanged : ∀ kind after, Edit.verdict (insertAlias p.name p.place p.size) s
    = (.error kind, after) → after = s

/-- A name that is too long is told first, and a payload that is refused changes nothing. -/
theorem insertAlias_cases (s : Session) (p : Payload) :
    (31 < (Text.Utf8.bytes p.name).length
        ∧ Edit.verdict (insertAlias p.name p.place p.size) s = (.error .nameTooLong, s))
      ∨ (¬ 31 < (Text.Utf8.bytes p.name).length
        ∧ 2 ^ 32 ≤ s.load.toNat + p.place.toNat + p.size.toNat
        ∧ Edit.verdict (insertAlias p.name p.place p.size) s = (.error .invalidArgument, s))
      ∨ (¬ 31 < (Text.Utf8.bytes p.name).length
        ∧ s.load.toNat + p.place.toNat + p.size.toNat < 2 ^ 32
        ∧ ∃ after, Edit.verdict (insertAlias p.name p.place p.size) s = (.ok (), after)) := by
  have hspace : addressSpace = 2 ^ 32 := rfl
  by_cases hname : aliasNameLimit < (Text.Utf8.bytes p.name).length
  · have hrun : insertAlias p.name p.place p.size s
        = .error (.aliasNameTooLong p.name aliasNameLimit) s := if_pos hname
    exact .inl ⟨hname, Edit.verdict_of_error hrun⟩
  by_cases hplace : addressSpace ≤ p.place.toNat + s.load.toNat + p.size.toNat
  · have hrun : insertAlias p.name p.place p.size s
        = .error (.aliasOutside p.name p.place p.size) s := by
      rw [insertAlias_eq, if_neg hname, if_pos hplace]
    exact .inr (.inl ⟨hname, by omega, Edit.verdict_of_error hrun⟩)
  · obtain ⟨after, hrun⟩ : ∃ after, insertAlias p.name p.place p.size s = .ok () after :=
      ⟨_, by rw [insertAlias_eq, if_neg hname, if_neg hplace]⟩
    exact .inr (.inr ⟨hname, by omega, after, Edit.verdict_of_ok hrun⟩)

/-- **Which payloads are accepted, and why the others are not.** -/
theorem insertAlias_decides (s : Session) (p : Payload) : s.Decides p := by
  have hsums : (∃ sums, p.sums? s.load = some sums)
      ↔ s.load.toNat + p.place.toNat + p.size.toNat < 2 ^ 32 := Payload.fits_iff_sums?.symm
  rcases insertAlias_cases s p with
    ⟨hname, hverdict⟩ | ⟨hname, hplace, hverdict⟩ | ⟨hname, hplace, after, hverdict⟩
  all_goals
    constructor
    all_goals simp only [hverdict, hsums, Prod.mk.injEq]
    all_goals simp
    all_goals omega

/-! ## §3. What sessions list. -/

/-- A session that lists payloads, the newest first, and counts how far they reach. -/
structure Lists (load : UInt32) (defined : List Payload) (s : Session) : Prop where
  loaded : s.load = load
  aliases : s.aliases = (defined.map (Payload.toAlias load)).reverse
  imageSize : s.imageSize.toNat = Payload.furthest defined
  fits : ∀ p ∈ defined, p.Fits load

/-- **What a request that was granted adds to the payloads.** -/
theorem Granted.lists {op : Operation} {after : Session} {inv more : Inventory}
    (hg : s.Granted inv op after more) (h : s.Lists load defined) :
    after.Lists load (defined ++ payloadsOf [op]) := by
  cases hg with
  | @payload name place size hname hplace =>
    have hfits : (⟨name, place, size⟩ : Payload).Fits load := by
      show load.toNat + place.toNat + size.toNat < addressSpace
      rw [h.loaded] at hplace
      omega
    show Lists load (defined ++ [⟨name, place, size⟩]) _
    refine ⟨h.loaded, ?_, ?_, ?_⟩
    · rw [List.map_append, List.reverse_append, ← h.aliases, h.loaded]
      rfl
    · show (max s.imageSize (place + size)).toNat = _
      rw [Payload.furthest_concat, ← h.imageSize, Payload.toNat_max, hfits.exact.1]
    · intro p hp
      rcases List.mem_append.1 hp with hp | hp
      · exact h.fits p hp
      · rw [List.mem_singleton.1 hp]
        exact hfits
  | map | program | console | foreign | complete =>
    rw [show payloadsOf [_] = [] from rfl, List.append_nil]
    exact ⟨h.loaded, h.aliases, h.imageSize, h.fits⟩

/-- A request that was refused adds nothing to them. -/
theorem Refused.lists {fault : Fault} {after : Session} (hr : s.Refused fault after)
    (h : s.Lists load defined) : after.Lists load defined := by
  cases hr with
  | earned => exact h
  | full => exact ⟨h.loaded, h.aliases, h.imageSize, h.fits⟩

/-- What is known of payloads: under each name the newest, and how far they reach. -/
structure Knows (load : UInt32) (defined : List Payload) (s : Session) : Prop where
  newest : ∀ p, Payload.Newest defined p →
    ∃ found, s.alias? p.name = .ok found ∧ found.name = p.name ∧ found.size = p.size
      ∧ found.address.toNat = p.place.toNat + load.toNat
      ∧ found.stop.toNat = found.address.toNat + p.size.toNat
  unknown : ∀ name, (∃ fault, s.alias? name = .error fault ∧ fault.kind = .aliasNotFound)
    ↔ ∀ p ∈ defined, p.name ≠ name
  imageSize : s.header.imageSize.toNat = Payload.furthest defined

theorem Lists.find?_eq (h : s.Lists load defined) (name : String) :
    s.aliases.find? (fun a => a.name = name)
      = (defined.reverse.find? (·.name = name)).map (Payload.toAlias load) := by
  rw [h.aliases, ← List.map_reverse, List.find?_map]
  rfl

theorem Lists.knows (h : s.Lists load defined) : s.Knows load defined where
  newest := by
    intro p hp
    have hmem : p ∈ defined := by simpa using List.mem_of_find?_eq_some hp.find?_eq
    refine ⟨p.toAlias load, ?_, rfl, rfl, (h.fits p hmem).exact.2⟩
    rw [alias?, h.find?_eq, hp.find?_eq]
    rfl
  unknown := by
    intro name
    rw [alias?, h.find?_eq]
    cases hfind : defined.reverse.find? (·.name = name) with
    | none =>
      have hnone : ∀ p ∈ defined, p.name ≠ name := by simpa using hfind
      exact ⟨fun _ => hnone, fun _ => ⟨_, rfl, rfl⟩⟩
    | some p =>
      have hname : p.name = name := by simpa using List.find?_some hfind
      have hmem : p ∈ defined := by simpa using List.mem_of_find?_eq_some hfind
      constructor
      · rintro ⟨fault, hfault, -⟩
        cases hfault
      · intro hnone
        exact absurd hname (hnone p hmem)
  imageSize := h.imageSize

/-! ## §4. What a run leaves. -/

theorem create_lists {place : Placement} {order : ByteOrder}
    (h : Session.create place order = .ok s) : s.Lists place.load [] := by
  obtain ⟨rfl, -⟩ := create_eq h
  exact ⟨rfl, rfl, rfl, by simp⟩

theorem payloadsOf_append (first second : List Operation) :
    payloadsOf (first ++ second) = payloadsOf first ++ payloadsOf second :=
  List.filterMap_append

/-- A request that names no payload leaves the image as large as it was. -/
theorem Sound.imageSize_after {inv : Inventory} (h : s.Sound inv) {op : Operation}
    (hop : op.payload? = none) : (s.after op).header.imageSize = s.header.imageSize := by
  rcases h.perform_settles op with ⟨fault, after, he, hr⟩ | ⟨_, after, he, more, -, hg⟩
  · have hafter : s.after op = after := by rw [Session.after, Edit.outcome, he]
    rw [hafter]
    cases hr with
    | earned | full => rfl
  · have hafter : s.after op = after := by rw [Session.after, Edit.outcome, he]
    rw [hafter]
    cases hg with
    | payload => cases hop
    | map | program | console | foreign | complete => rfl

/-- **What a session knows of payloads after any number of requests.**  Under each name it finds the
newest payload that was accepted, and the image is as large as the one that reaches furthest, which
only naming a payload can change.  Which payloads are accepted is decided by the length of the name
and one exact sum. -/
theorem run_payloads {place : Placement} {order : ByteOrder} {start : Session}
    (h : Session.create place order = .ok start) (ops : List Operation) :
    (start.run ops).Knows place.load (payloadsOf (start.accepted ops))
      ∧ (∀ op : Operation, op.payload? = none →
        ((start.run ops).after op).header.imageSize = (start.run ops).header.imageSize)
      ∧ (start.run ops).load = place.load ∧ ∀ p, (start.run ops).Decides p := by
  obtain ⟨more, hsound, hlists⟩ := (create_sound h).run_keeps
    (fun done t _ => t.Lists place.load (payloadsOf done)) [] ops (create_lists h)
    (fun _ _ _ _ _ _ hP hr => hr.lists hP)
    fun done t _ op after _ _ _ hP hg => by
      rw [payloadsOf_append]
      exact hg.lists hP
  exact ⟨hlists.knows, fun op hop => hsound.imageSize_after hop, hlists.loaded,
    insertAlias_decides _⟩

/-- A name that is given again, a payload that ends behind the address space, and requests for other
things in between. -/
theorem run_payloads_shadowed :
    ∃ start ops, Session.create ⟨0x80000000, 0x100, 0x400⟩ .little = .ok start
      ∧ ops = [.command (.payload "psh" 0x4000 0x1000), .complete,
        .command (.payload "wrap" 0x7ffffff0 0x10), .command (.map "ddr" 0x100 0x200 3),
        .command (.payload "psh" 0x1000 0)]
      ∧ payloadsOf (start.accepted ops) = [⟨"psh", 0x4000, 0x1000⟩, ⟨"psh", 0x1000, 0⟩]
      ∧ (start.run ops).Knows 0x80000000 (payloadsOf (start.accepted ops)) := by
  have hstart : ∃ start, Session.create ⟨0x80000000, 0x100, 0x400⟩ .little = .ok start := ⟨_, rfl⟩
  obtain ⟨start, hstart⟩ := hstart
  refine ⟨start, _, hstart, rfl, ?_, (run_payloads hstart _).1⟩
  cases hstart
  rfl

end Session
end SystemPage
