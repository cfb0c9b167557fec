/-
What the transmitted bytes are taken from.

ota_update compares its cursor with neither the length of the file nor
the buffers: the record it builds next is wherever the length fields
lead, and what lies behind the file in `fw_data_buf` is whatever the
stack held. `stack_sent` is a truncated file whose only record is
transmitted with two bytes of the stack behind it; `remain_data_len` is
counted down for the purpose and compared with nothing.

`inside` is the comparison that is missing. In every run in which each
record about to be built lies inside the file (and fits `cmd_buf`), no
step is without a meaning and each packet is 0x52 followed by a stretch
of the file (`sent_inside`), for any file and any responses.

The steps without a meaning are those that build a packet. The dumps of
the verbose log have none either (`dumps_never_fit`); a verbose session
is taken past them.
-/
import BtOta.Proofs.Shape

namespace BtOta

/-- The packet is the report type and a stretch of the file: no byte of
it comes from anywhere else. -/
def FromFile (file packet : List UInt8) : Prop :=
  packet.head? = some 0x52 ∧ packet.tail <:+: file

instance (file packet : List UInt8) : Decidable (FromFile file packet) :=
  inferInstanceAs (Decidable (_ ∧ _))

/-- Every packet written is, however often it is written. -/
def SentInside (file : List UInt8) (s : Session) : Prop :=
  s.snd.pc ≠ .undefined ∧ ∀ t ∈ sentOf s.trace, FromFile file t.2

instance (file : List UInt8) (s : Session) : Decidable (SentInside file s) :=
  inferInstanceAs (Decidable (_ ∧ _))

/-- The record about to be built lies inside the file, header and body,
and fits `cmd_buf`. -/
def inside (file : List UInt8) (s : Session) (a : Act) : Prop :=
  a = .send .tick → s.snd.pc = .assemble →
    s.snd.nextIdx + 2 < file.length
      ∧ s.snd.nextIdx + s.snd.nextLen ≤ file.length
      ∧ s.snd.nextLen ≤ 1021

instance (file : List UInt8) (s : Session) (a : Act) :
    Decidable (inside file s a) :=
  inferInstanceAs (Decidable (_ → _ → _))

variable {cs : CharSign} {g g' : Shared} {l l' : Sender} {es : List Event}
  {i : SIn} {s s' : Session} {file : List UInt8}

/-- A record inside the file is read from the file, since the buffer
agrees with the file as far as that goes. -/
theorem fromFile_recordAt {fw : Nat → UInt8} {idx len : Nat}
    (hfw : ∀ j, j < file.length → fw j = file.getD j 0)
    (hle : idx + len ≤ file.length) :
    FromFile file (recordAt fw idx len) := by
  refine ⟨rfl, ?_⟩
  have heq : (List.range len).map (fun j => fw (idx + j))
      = (file.drop idx).take len := by
    apply List.ext_getElem (by simp; omega)
    intro j hj hj'
    have hlt : idx + j < file.length := by
      have : j < len := by simpa using hj
      omega
    rw [List.getElem_map, List.getElem_range, hfw _ hlt, List.getElem_take,
      List.getElem_drop, List.getD_eq_getElem _ _ hlt]
  show (List.range len).map (fun j => fw (idx + j)) <:+: file
  rw [heq]
  exact (List.take_prefix _ _).isInfix.trans (List.drop_suffix _ _).isInfix

/-- Only an assembly outside the buffers is without a meaning, once the
file is loaded; no other step leads to `undefined`. -/
theorem SStep.undefined (h : SStep cs g l i g' l' es)
    (hu : l'.pc = .undefined) :
    l.pc = .load
      ∨ l.pc = .assemble ∧ i = .tick ∧ BtOta.assemble cs g l = none := by
  cases h with
  | openOver pc => exact Or.inl pc
  | crash pc hasm => exact Or.inr ⟨pc, rfl, hasm⟩
  | _ => cases hu

/-- What a run under `inside` keeps: the buffer is as loaded, and the
packet held and all packets written are of the file. -/
structure ContentsInv (file : List UInt8) (s : Session) : Prop where
  loaded : Loaded file s.snd
  defined : s.snd.pc ≠ .undefined
  packet : s.snd.pc.holding = true → FromFile file s.snd.packet
  sent : ∀ t ∈ sentOf s.trace, FromFile file t.2

theorem ContentsInv.send (hi : ContentsInv file s)
    (hfit : file.length ≤ fwBufSize) (hok : inside file s (.send i))
    (h : SStep cs s.g s.snd i g' l' es) :
    ContentsInv file
      { g := g', snd := l', rdr := Session.spawn s.rdr i
        trace := s.trace ++ es } := by
  have hsends : SendsOnly (FromFile file)
      { g := g', snd := l', rdr := Session.spawn s.rdr i
        trace := s.trace ++ es } := by
    refine SendsOnly.send ⟨hi.packet, hi.sent⟩ hi.loaded.opened ?_ h
    intro hpc htick l₁ hasm
    subst htick
    obtain ⟨-, hbody, -⟩ := hok rfl hpc
    rw [hasm.packet]
    exact fromFile_recordAt hi.loaded.buf hbody
  refine ⟨hi.loaded.step h, ?_, hsends.packet, hsends.sent⟩
  intro hu
  rcases h.undefined hu with hpc | ⟨hpc, rfl, hnone⟩
  · exact hi.loaded.opened.2 hpc
  · obtain ⟨hhead, hbody, hcmd⟩ := hok rfl hpc
    have hin : inBuffers s.snd.nextIdx s.snd.nextLen = true := by
      refine decide_eq_true ⟨by omega, by omega, ?_⟩
      show s.snd.nextLen + 1 + 1 < 1024
      omega
    have hsome := assemble_isSome cs s.g hin (by
      rw [hi.loaded.len]
      omega)
    rw [hnone] at hsome
    cases hsome

theorem ContentsInv.read {pc pc' : RPc} {j : RIn} (hi : ContentsInv file s)
    (h : RStep cs s.g pc j g' pc' es) :
    ContentsInv file
      { s with g := g', rdr := some pc', trace := s.trace ++ es } := by
  have hsends := SendsOnly.read ⟨hi.packet, hi.sent⟩ h
  exact ⟨hi.loaded, hi.defined, hi.packet, hsends.sent⟩

/-- In every run whose records all lie inside the file, nothing but bytes
of the file is sent, whatever the stack holds behind it. -/
theorem sent_inside {g₀ : Shared} {param2 : Option String}
    {stack : Nat → UInt8} (hfit : file.length ≤ fwBufSize)
    (h : Lts.Reach (Session.step cs) (inside file)
      (Session.start g₀ param2 stack file) s) :
    SentInside file s := by
  have hinv : ContentsInv file s := by
    refine h.invariant (I := ContentsInv file) ?_ ?_
    · refine ⟨loaded_start g₀ param2 stack file, nofun, nofun, ?_⟩
      intro t ht
      rw [sentOf_quiet (Session.start_quiet g₀ param2 stack file)] at ht
      cases ht
    · intro s a s' hi hok hs
      cases Session.step_inv hs with
      | send hm => exact hi.send hfit hok hm
      | read hrdr hm => exact hi.read hm
  exact ⟨hinv.defined, hinv.sent⟩

-- ========================================================== two sessions

/-- One START record of seven bytes, and nothing behind it. -/
def startFile : List UInt8 := [0xF0, 7, 0, 0, 1, 0, 0]

def startFileSent : Session :=
  (Lts.run (Session.step .unsigned) (inside startFile)
    (Session.start Shared.loaded none (fun _ => 0xAA) startFile)
    sendFirst).getD (Session.start Shared.loaded none (fun _ => 0xAA) startFile)

/-- The record of a file without a FINISH record is sent as it is. -/
theorem sent_inside_start :
    sentOf startFileSent.trace = [(1, 0x52 :: startFile)]
      ∧ SentInside startFile startFileSent :=
  ⟨by decide, sent_inside (by decide) (Lts.Reach.of_isSome (by decide))⟩

/-- The same record cut short: it says that it has nine bytes. -/
def truncatedFile : List UInt8 := [0xF0, 9, 0, 0, 1, 0, 0]

/-- It is sent, over a stack of 0xAA bytes. -/
def truncatedSent : Session :=
  (Lts.run (Session.step .unsigned) Lts.free
    (Session.start Shared.loaded none (fun _ => 0xAA) truncatedFile)
    sendFirst).getD
    (Session.start Shared.loaded none (fun _ => 0xAA) truncatedFile)

/-- Two bytes of the stack are transmitted behind a truncated file. -/
theorem stack_sent :
    ¬ ∀ (cs : CharSign) (g₀ : Shared) (param2 : Option String)
        (stack : Nat → UInt8) (file : List UInt8) (s : Session),
      file.length ≤ fwBufSize →
      Lts.Reach (Session.step cs) Lts.free
        (Session.start g₀ param2 stack file) s →
      SentInside file s := by
  intro h
  have hrun : Lts.Reach (Session.step .unsigned) Lts.free
      (Session.start Shared.loaded none (fun _ => 0xAA) truncatedFile)
      truncatedSent := Lts.Reach.of_isSome (by decide)
  have hall := (h _ _ _ _ truncatedFile _ (by decide) hrun).2
  have hsent : sentOf truncatedSent.trace
      = [(1, 0x52 :: truncatedFile ++ [0xAA, 0xAA])] := by decide
  rw [hsent] at hall
  exact absurd (hall _ (List.mem_singleton_self _)) (by decide)

end BtOta
