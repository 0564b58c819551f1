import CucumberCpp.Base64
import CucumberCpp.ExecutionContext

/-! What bodies attach can be read back from the messages, also what they attach as a stream. -/
namespace CucumberCpp

/-- The bytes of a `std::string`, whose characters are below 256. -/
def bytesOfString (s : String) : List UInt8 := s.toList.map fun c => UInt8.ofNat c.toNat

def stringOfBytes (bytes : List UInt8) : String :=
  String.ofList (bytes.map fun b => Char.ofNat b.toNat)

theorem bytesOfString_stringOfBytes (bytes : List UInt8) :
    bytesOfString (stringOfBytes bytes) = bytes := by
  rw [bytesOfString, stringOfBytes, String.toList_ofList, List.map_map]
  conv_rhs => rw [← List.map_id bytes]
  apply List.map_congr_left
  intro b _
  have hvalid : b.toNat.isValidChar := .inl (by have := b.toNat_lt; omega)
  have htoNat : (Char.ofNat b.toNat).toNat = b.toNat := by
    rw [Char.ofNat, dif_pos hvalid]
    rfl
  rw [Function.comp_apply, htoNat]
  exact UInt8.ofNat_toNat

/-- `base64::to_base64` of strings; it does not throw. -/
def base64OfString (s : String) : String :=
  match Base64.toBase64 (bytesOfString s) with
  | .ok encoded => stringOfBytes encoded
  | .error _ => ""

/-- What a reader of the message makes of its body. -/
def Attachment.content (e : Base64.ByteOrder) (a : Attachment) :
    Except Base64.Fault (List UInt8) :=
  match a.contentEncoding with
  | .identity => .ok (bytesOfString a.body)
  | .base64 => Base64.fromBase64 e (bytesOfString a.body)

/-- The attachment with its body encoded if it says so. -/
def Attachment.encodedBy (toBase64 : String → String) (a : Attachment) : Attachment :=
  match a.contentEncoding with
  | .identity => a
  | .base64 => { a with body := toBase64 a.body }

theorem Attachment.content_encodedBy (e : Base64.ByteOrder) (a : Attachment) :
    (a.encodedBy base64OfString).content e = .ok (bytesOfString a.body) := by
  obtain ⟨encoded,hencoded,hdecoded⟩ := Base64.exists_roundTrip e (bytesOfString a.body)
  -- only what says that it is encoded was encoded
  cases hencoding : a.contentEncoding with
  | identity => simp [Attachment.encodedBy, Attachment.content, hencoding]
  | base64 =>
    simp [Attachment.encodedBy, Attachment.content, hencoding, base64OfString, hencoded,
      bytesOfString_stringOfBytes, hdecoded]

theorem mapM_content_encodedBy (e : Base64.ByteOrder) (raw : List Attachment) :
    (raw.map (Attachment.encodedBy base64OfString)).mapM (Attachment.content e) =
      .ok (raw.map fun a => bytesOfString a.body) := by
  induction raw with
  | nil => rfl
  | cons a raw ih =>
    rw [List.map_cons, List.mapM_cons, ih, Attachment.content_encodedBy]
    rfl

theorem ContextCall.perform_eq (toBase64 : String → String) (c : ExecutionContext)
    (call : ContextCall) : call.perform toBase64 c = (call.perform id c).encodedBy toBase64 := by
  cases call <;> rfl

section

variable {stepCode : StepDefinition → StepArgs → UserCode} {c : ExecutionContext}
  {runner : Option NestedTestCaseRunner} {code : UserCode} {attachments raw : List Attachment}
  {result : Util.TestStepResult}

/-- A body does not notice that its streams are encoded. -/
theorem Executes.encoded (toBase64 : String → String)
    (h : Executes id stepCode c runner code raw result) :
    Executes toBase64 stepCode c runner code (raw.map (Attachment.encodedBy toBase64)) result := by
  induction h with
  | finish => exact .finish
  | context _ ih =>
    rw [List.map_cons, ← ContextCall.perform_eq]
    exact .context ih
  | undefined hids _ ih => exact .undefined hids ih
  | ambiguous hids _ ih => exact .ambiguous hids ih
  | nested hids hlists hd _ _ ihinner ihnext =>
    rw [List.map_append]
    exact .nested hids hlists hd ihinner ihnext

theorem Executes.exists_raw {toBase64 : String → String}
    (h : Executes toBase64 stepCode c runner code attachments result) :
    ∃ raw, Executes id stepCode c runner code raw result ∧
      attachments = raw.map (Attachment.encodedBy toBase64) := by
  induction h with
  | finish => exact ⟨[], .finish, rfl⟩
  | @context c runner call next attachments result _ ih =>
    obtain ⟨raw,hraw,rfl⟩ := ih
    refine ⟨call.perform id c :: raw, .context hraw, ?_⟩
    rw [List.map_cons, ← ContextCall.perform_eq]
  | undefined hids _ ih =>
    obtain ⟨raw,hraw,heq⟩ := ih
    exact ⟨raw, .undefined hids hraw, heq⟩
  | ambiguous hids _ ih =>
    obtain ⟨raw,hraw,heq⟩ := ih
    exact ⟨raw, .ambiguous hids hraw, heq⟩
  | nested hids hlists hd _ _ ihinner ihnext =>
    obtain ⟨inner,hinner,rfl⟩ := ihinner
    obtain ⟨raw,hraw,rfl⟩ := ihnext
    exact ⟨inner ++ raw, .nested hids hlists hd hinner hraw, List.map_append.symm⟩

/-- Whatever a body attaches at any depth of nested steps, as text or as a stream, a reader of
the messages gets back byte by byte and in order, on a machine of either byte order; and the body
does what it would do if its streams were attached as they are. -/
theorem attachments_lossless (e : Base64.ByteOrder) :
    Executes base64OfString stepCode c runner code attachments result ↔
      ∃ raw, Executes id stepCode c runner code raw result ∧
        attachments = raw.map (Attachment.encodedBy base64OfString) ∧
        attachments.mapM (Attachment.content e) =
          .ok (raw.map fun a => bytesOfString a.body) := by
  constructor
  · intro h
    obtain ⟨raw,hraw,rfl⟩ := h.exists_raw
    exact ⟨raw, hraw, rfl, mapM_content_encodedBy e raw⟩
  · intro h
    obtain ⟨raw,hraw,rfl,_⟩ := h
    exact hraw.encoded base64OfString

end

end CucumberCpp
