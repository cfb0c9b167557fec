/-
Whether a device's information is read back as it was stored.

store_device_info allocates exactly what its line needs (`storedText_eq`),
so nothing is cut off. The line is read back by sscanf, and there a
request does not always return as it was: with an empty descriptor
`%4095s` takes the flags for it, a descriptor of more than 2047 bytes is
read up to there, and white space at the head of the name is skipped
with the blank before it. `stored_round_trip` says that nothing else is
lost: a request comes back the same exactly where none of these is the
case.
-/
import BtOta.DeviceInfo

namespace BtOta

open Scan

-- ================================================================== the line

theorem byte_lt (b : UInt8) : b.toNat < 16 ^ 2 := b.toNat_lt

theorem short_lt (n : UInt16) : n.toNat < 16 ^ 4 := n.toNat_lt

theorem int_lt (n : UInt32) : n.toNat < 16 ^ 8 := n.toNat_lt

theorem length_descOf (rdData : List UInt8) :
    (descOf rdData).length = rdData.length * 2 := by
  induction rdData with
  | nil => rfl
  | cons b bs ih =>
      rw [descOf, List.flatMap_cons, List.length_append,
        length_printX (byte_lt b)]
      rw [descOf] at ih
      rw [ih, List.length_cons]
      omega

theorem isDigit_of_mem_descOf {rdData : List UInt8} {c : Char}
    (h : c ∈ descOf rdData) : isDigit c = true := by
  obtain ⟨b, -, hc⟩ := List.mem_flatMap.mp h
  exact isDigit_of_mem_printX hc

/-- Exactly what is allocated is written, the NUL and one byte apart. -/
theorem length_infoText (req : ConnaddReq) :
    (infoText req).length + 2 = infoSize req := by
  simp only [infoText, infoSize, List.length_append, List.length_cons,
    length_descOf, length_printX (byte_lt _), length_printX (short_lt _),
    length_printX (int_lt _)]
  omega

/-- Nothing of the line is cut off. -/
theorem storedText_eq (req : ConnaddReq) : storedText req = infoText req := by
  apply List.take_of_length_le
  have hlen := length_infoText req
  omega

/-- Only the name can bring the end of a line into it: everything else is
digits, colons and blanks. -/
theorem mem_infoText {req : ConnaddReq} {c : Char} (h : c ∈ infoText req) :
    isDigit c = true ∨ c = ':' ∨ c = ' ' ∨ c ∈ req.name.text := by
  have hdigit : ∀ {w n : Nat}, c ∈ printX w n → isDigit c = true :=
    isDigit_of_mem_printX
  simp only [infoText, List.mem_append, List.mem_cons] at h
  rcases h with h | h | h | h | h | h | h | h | h | h | h | h | h | h | h | h | h
  all_goals first
    | exact Or.inl (hdigit h)
    | exact Or.inl (isDigit_of_mem_descOf h)
    | exact Or.inr (Or.inl h)
    | exact Or.inr (Or.inr (Or.inl h))
    | exact Or.inr (Or.inr (Or.inr h))

-- =================================================================== fetching

theorem length_ofDesc : ∀ desc, (ofDesc desc).length = desc.length / 2
  | [] => rfl
  | [a] => by simp [ofDesc]
  | a :: b :: desc => by
      rw [ofDesc, List.length_cons, length_ofDesc desc, List.length_cons,
        List.length_cons]
      omega

theorem ofBitVec_ofInt (b : UInt8) :
    UInt8.ofBitVec (BitVec.ofInt 8 (b.toNat : Int)) = b := by
  rw [show BitVec.ofInt 8 (b.toNat : Int) = BitVec.ofNat 8 b.toNat from rfl]
  exact UInt8.toNat_inj.mp (by simp)

/-- The descriptor is read back two digits at a time, and so it was
written. -/
theorem ofDesc_descOf (rdData : List UInt8) :
    ofDesc (descOf rdData) = rdData := by
  induction rdData with
  | nil => rfl
  | cons b bs ih =>
      obtain ⟨x, y, hxy⟩ :=
        List.length_eq_two.mp (length_printX (byte_lt b))
      have hvalue : strtol16 [x, y] = b.toNat := hxy ▸ strtol16_printX 2 _
      have hdesc : descOf (b :: bs) = x :: y :: descOf bs := by
        rw [descOf, List.flatMap_cons, hxy]
        rfl
      rw [hdesc, ofDesc, ih, hvalue, ofBitVec_ofInt]

/-- What sscanf makes of a line, up to the descriptor: the six numbers as
they were printed, with the rest of the line before it. -/
theorem sscanf_infoText (req : ConnaddReq) :
    sscanf infoFormat 0 (infoText req)
      = [.num req.vendor.toNat, .num req.product.toNat,
          .num req.version.toNat, .num req.subclass.toNat,
          .num req.country.toNat, .num req.parser.toNat]
        ++ sscanf [.space, .str 4095, .space, .hex 8, .space, .count] 25
          (' ' :: (descOf req.rdData
            ++ ' ' :: (printX 8 req.flags.toNat ++ ' ' :: req.name.text))) := by
  have hblank : isSpace ' ' = true := rfl
  unfold infoFormat infoText
  rw [sscanf_hex (by decide) (by decide) (short_lt _), sscanf_lit,
    sscanf_hex (by decide) (by decide) (short_lt _), sscanf_lit,
    sscanf_hex (by decide) (by decide) (short_lt _),
    sscanf_space hblank (head_printX (by decide) (byte_lt _)),
    sscanf_hex (by decide) (by decide) (byte_lt _),
    sscanf_space hblank (head_printX (by decide) (byte_lt _)),
    sscanf_hex (by decide) (by decide) (byte_lt _),
    sscanf_space hblank (head_printX (by decide) (short_lt _)),
    sscanf_hex (by decide) (by decide) (short_lt _)]
  rfl

/-- And from there, for a descriptor that sscanf takes whole: the
descriptor, the flags, and how many characters they took. -/
theorem sscanf_desc {desc name : List Char} {flags : UInt32} {k : Nat}
    (hne : desc ≠ []) (hdesc : ∀ c ∈ desc, isDigit c = true)
    (hlen : desc.length ≤ 4095) :
    sscanf [.space, .str 4095, .space, .hex 8, .space, .count] k
        (' ' :: (desc ++ ' ' :: (printX 8 flags.toNat ++ ' ' :: name)))
      = [.text desc, .num flags.toNat,
        .count (k + 1 + desc.length + 1 + 8
          + (name.length + 1 - (name.dropWhile isSpace).length))] := by
  have hspace : ∀ c ∈ desc, isSpace c = false := fun c hc =>
    not_isSpace_of_isDigit (hdesc c hc)
  have hhead : ∀ c ∈ (desc ++ ' ' :: (printX 8 flags.toNat
      ++ ' ' :: name)).head?, isSpace c = false := by
    intro c hc
    rw [List.head?_append_of_ne_nil _ hne] at hc
    exact hspace c (List.mem_of_mem_head? hc)
  rw [sscanf_space rfl hhead,
    sscanf_str hne hspace (by decide) (by simp [isSpace]),
    List.take_of_length_le hlen, List.drop_of_length_le hlen,
    List.nil_append, sscanf_space rfl (head_printX (by decide) (int_lt _)),
    sscanf_hex (by decide) (by decide) (int_lt _)]
  simp [sscanf, isSpace]

/-- What is read of the name: it begins behind the blanks, since `%n` has
counted those with it. -/
theorem drop_infoText (req : ConnaddReq) :
    (infoText req).drop (25 + 1 + (descOf req.rdData).length + 1 + 8
        + (req.name.text.length + 1
          - (req.name.text.dropWhile isSpace).length))
      = req.name.text.dropWhile isSpace := by
  obtain ⟨blanks, hblanks⟩ :=
    List.dropWhile_suffix isSpace (l := req.name.text)
  obtain ⟨front, hfront, hlen⟩ : ∃ front,
      infoText req = front ++ req.name.text
        ∧ front.length = 36 + (descOf req.rdData).length := by
    refine ⟨infoText { req with name := ⟨[], by decide⟩ }, ?_, ?_⟩
    · simp [infoText]
    · have hlen := length_infoText { req with name := ⟨[], by decide⟩ }
      simp only [infoSize, List.length_nil] at hlen
      rw [length_descOf]
      omega
  have hname : blanks.length + (req.name.text.dropWhile isSpace).length
      = req.name.text.length := by
    rw [← List.length_append, hblanks]
  have hsplit : infoText req
      = (front ++ blanks) ++ req.name.text.dropWhile isSpace := by
    rw [hfront, List.append_assoc, hblanks]
  rw [hsplit]
  apply List.drop_left'
  rw [List.length_append]
  omega

/-- A request whose descriptor is read back comes with what is left of
its name. -/
theorem parseInfo_infoText {req : ConnaddReq} (hpos : 0 < req.rdData.length)
    (hle : req.rdData.length ≤ 2047) :
    ∃ name : CString 128, name.text = req.name.text.dropWhile isSpace
      ∧ parseInfo (infoText req) = some { req with name := name } := by
  have hne : descOf req.rdData ≠ [] := by
    intro hnil
    have hlen := length_descOf req.rdData
    rw [hnil, List.length_nil] at hlen
    omega
  have hfits : (req.name.text.dropWhile isSpace).length + 1 ≤ 128 := by
    have hle := (List.dropWhile_sublist isSpace (l := req.name.text)).length_le
    have hfits := req.name.fits
    omega
  have htake : (req.name.text.dropWhile isSpace).take 127
      = req.name.text.dropWhile isSpace :=
    List.take_of_length_le (by omega)
  refine ⟨⟨_, hfits⟩, rfl, ?_⟩
  unfold parseInfo
  rw [sscanf_infoText, sscanf_desc hne (fun c hc => isDigit_of_mem_descOf hc)
    (by rw [length_descOf]; omega)]
  simp only [List.cons_append, List.nil_append]
  rw [drop_infoText, htake, CString.store, dif_pos hfits, ofDesc_descOf]
  simp

/-- Whatever is read of a line, the descriptor is what `%4095s` took. -/
theorem length_of_parseInfo {str desc : List Char} {req : ConnaddReq}
    {a b c d e f : Arg} {rest : List Arg}
    (hscan : sscanf infoFormat 0 str
      = [a, b, c, d, e, f] ++ .text desc :: rest)
    (h : parseInfo str = some req) :
    req.rdData.length = desc.length / 2 := by
  unfold parseInfo at h
  rw [hscan] at h
  split at h
  case h_2 => cases h
  case h_1 heq =>
    obtain ⟨name, -, hreq⟩ := Option.bind_eq_some_iff.mp h
    simp only [List.cons_append, List.nil_append, List.cons.injEq,
      Arg.text.injEq] at heq
    obtain ⟨-, -, -, -, -, -, hdesc, -⟩ := heq
    cases hreq
    rw [length_ofDesc, hdesc]

/-- A request without a descriptor: the flags are taken for it, whose
eight digits make four bytes. -/
theorem length_of_parseInfo_nil {req req' : ConnaddReq}
    (hnil : req.rdData = []) (h : parseInfo (infoText req) = some req') :
    req'.rdData.length = 4 := by
  have hflags : ∀ c ∈ printX 8 req.flags.toNat, isSpace c = false :=
    fun c hc => not_isSpace_of_isDigit (isDigit_of_mem_printX hc)
  have hblanks : sscanf [.space, .str 4095, .space, .hex 8, .space, .count] 25
        (' ' :: (descOf req.rdData
          ++ ' ' :: (printX 8 req.flags.toNat ++ ' ' :: req.name.text)))
      = sscanf [.str 4095, .space, .hex 8, .space, .count] 27
        (printX 8 req.flags.toNat ++ ' ' :: req.name.text) := by
    have htwo : ' ' :: (descOf req.rdData
          ++ ' ' :: (printX 8 req.flags.toNat ++ ' ' :: req.name.text))
        = [' ', ' '] ++ (printX 8 req.flags.toNat ++ ' ' :: req.name.text) := by
      rw [hnil]
      rfl
    rw [htwo]
    exact sscanf_blanks (by simp [isSpace])
      (head_printX (by decide) (int_lt _))
  have hscan := sscanf_infoText req
  rw [hblanks, sscanf_str (printX_ne_nil (by decide) (int_lt _)) hflags
    (by decide) (by simp [isSpace])] at hscan
  rw [length_of_parseInfo hscan h, List.length_take,
    length_printX (int_lt _)]
  rfl

/-- A descriptor that is too long is read up to the width. -/
theorem length_of_parseInfo_long {req req' : ConnaddReq}
    (hlong : 2048 ≤ req.rdData.length)
    (h : parseInfo (infoText req) = some req') :
    req'.rdData.length = 2047 := by
  have hne : descOf req.rdData ≠ [] := by
    intro hnil
    have hlen := length_descOf req.rdData
    rw [hnil, List.length_nil] at hlen
    omega
  have hspace : ∀ c ∈ descOf req.rdData, isSpace c = false :=
    fun c hc => not_isSpace_of_isDigit (isDigit_of_mem_descOf hc)
  have hscan := sscanf_infoText req
  rw [sscanf_space rfl (by
      intro c hc
      rw [List.head?_append_of_ne_nil _ hne] at hc
      exact hspace c (List.mem_of_mem_head? hc)),
    sscanf_str hne hspace (by decide) (by simp [isSpace])] at hscan
  rw [length_of_parseInfo hscan h, List.length_take, length_descOf]
  omega

-- =================================================================== results

/-- A line read back is the request it was written for exactly where its
descriptor is neither empty nor too long, and its name does not begin
with white space. -/
theorem parseInfo_eq_iff (req : ConnaddReq) :
    parseInfo (infoText req) = some req
      ↔ 0 < req.rdData.length ∧ req.rdData.length ≤ 2047
        ∧ ∀ c ∈ req.name.text.head?, isSpace c = false := by
  constructor
  · intro h
    have hpos : 0 < req.rdData.length := by
      by_contra hzero
      have hnil : req.rdData = [] := List.eq_nil_of_length_eq_zero (by omega)
      have hfour := length_of_parseInfo_nil hnil h
      omega
    have hle : req.rdData.length ≤ 2047 := by
      by_contra hlong
      have hcut := length_of_parseInfo_long (by omega) h
      omega
    refine ⟨hpos, hle, ?_⟩
    obtain ⟨name, hname, hparse⟩ := parseInfo_infoText hpos hle
    rw [hparse] at h
    have hsame : name = req.name :=
      congrArg ConnaddReq.name (Option.some.inj h)
    rw [hsame] at hname
    intro c hc
    rw [hname] at hc
    cases hs : isSpace c with
    | false => rfl
    | true =>
        have hnot := List.head?_dropWhile_not isSpace req.name.text
        rw [Option.mem_def.mp hc] at hnot
        cases hs.symm.trans hnot
  · rintro ⟨hpos, hle, hhead⟩
    obtain ⟨name, hname, hparse⟩ := parseInfo_infoText hpos hle
    have hsame : name = req.name :=
      CString.eq_of_text (hname.trans (dropWhile_isSpace_of_head hhead))
    rw [hparse, hsame]

/-- A line that is put is got back, as long as it is one line. This is
what the code relies on textfile.c for. -/
def Textfile.Keeps {σ α : Type} (tf : Textfile σ α) : Prop :=
  ∀ files src dst line files', (∀ c ∈ line, c ≠ '\n' ∧ c ≠ '\r') →
    tf.textfilePut files src dst line = (files', 0) →
    tf.textfileGet files' src dst = some line

/-- What is stored of a device is what is fetched of it next, exactly
where the descriptor is neither empty nor longer than 2047 bytes, and the
name does not begin with white space. -/
theorem stored_round_trip {σ α : Type} {tf : Textfile σ α}
    (htf : tf.Keeps) {files files' : σ} {src dst : α} {req : ConnaddReq}
    (hline : ∀ c ∈ req.name.text, c ≠ '\n' ∧ c ≠ '\r')
    (hput : storeDeviceInfo tf files src dst req = (files', 0)) :
    getStoredDeviceInfo tf files' src dst = .req req
      ↔ 0 < req.rdData.length ∧ req.rdData.length ≤ 2047
        ∧ ∀ c ∈ req.name.text.head?, isSpace c = false := by
  have hone : ∀ c ∈ infoText req, c ≠ '\n' ∧ c ≠ '\r' := by
    intro c hc
    rcases mem_infoText hc with hd | rfl | rfl | hname
    · constructor
      · rintro rfl
        cases hd
      · rintro rfl
        cases hd
    · decide
    · decide
    · exact hline c hname
  rw [storeDeviceInfo, storedText_eq] at hput
  have hget := htf files src dst _ files' hone hput
  rw [← parseInfo_eq_iff, getStoredDeviceInfo, hget]
  cases hparse : parseInfo (infoText req) with
  | none => simp [hparse]
  | some req' => simp [hparse]

/-- A store of lines in which the line put last is found first: a text
file as far as the round trip asks. -/
def lineFile : Textfile (List ((Nat × Nat) × List Char)) Nat where
  textfilePut files src dst line := (((src, dst), line) :: files, 0)
  textfileGet files src dst :=
    (files.find? fun entry => entry.1 == (src, dst)).map Prod.snd

/-- A remote control with a short descriptor, which is read back as it
was stored. -/
def remoteControl : ConnaddReq where
  vendor := 0x1d5a
  product := 0xc080
  version := 0x0100
  subclass := 0x0c
  country := 0x21
  parser := 0x0100
  flags := 0
  name := ⟨"BT Remote".toList, by decide⟩
  rdData := [0x05, 0x01, 0x09, 0x06, 0xa1, 0x01, 0xc0]

theorem stored_round_trip_remote :
    storeDeviceInfo lineFile [] 1 2 remoteControl
        = ([((1, 2), storedText remoteControl)], 0)
      ∧ (getStoredDeviceInfo lineFile [((1, 2), storedText remoteControl)]
          1 2 = .req remoteControl
        ↔ 0 < remoteControl.rdData.length
          ∧ remoteControl.rdData.length ≤ 2047
          ∧ ∀ c ∈ remoteControl.name.text.head?, isSpace c = false) :=
  ⟨rfl, @stored_round_trip _ _ lineFile
    (by
      intro files src dst line files' _ hput
      cases hput
      simp [lineFile])
    [] _ 1 2 remoteControl (by simp [remoteControl]) rfl⟩

end BtOta
