import SVR2.Basic
import SVR2.Lib.Cbor

/-!
# The COSE envelope of a Nitro attestation

`attestation/nitro/nitro.cc`: an attestation document comes in a COSE_Sign1 message, an array of a
protected header, an unprotected one, the payload and the signature.  The protected header is itself
CBOR in a byte string and names the algorithm of the signature.  tinycbor is a parameter.
-/

namespace SVR2.Nitro

open Lib.Cbor Tinycbor

section Source

variable {V : Type} [Tinycbor V]

/-- `CborByteString`, with the item after it.  A null counts as a string without bytes. -/
def cborByteString (v : V) : Except Error (Bytes × V) :=
  if getType v = .null then
    match advance v with
    | none => .error .attestationNitroCoseFormat
    | some next => .ok ([], next)
  else if getType v ≠ .byteString then .error .attestationNitroCoseFormat
  else match getStringLength v with
    | none => .error .attestationNitroCoseFormat
    | some size =>
      match copyByteString v size with
      | none => .error .attestationNitroCoseFormat
      | some (out, next) =>
        if out.length ≠ size then .error .attestationNitroCoseFormat else .ok (out, next)

def cborInt (v : V) : Except Error (Int × V) :=
  if getType v ≠ .integer then .error .attestationNitroCoseFormat
  else match getInt64Checked v with
    | none => .error .attestationNitroCoseFormat
    | some out =>
      match advance v with
      | none => .error .attestationNitroCoseFormat
      | some next => .ok (out, next)

/-- The part of `ParseFromBytes` that goes over the unprotected header, which has to be empty. -/
def skipUnprotectedHeader (elts : V) : Except Error V :=
  if getType elts ≠ .map then .error .attestationNitroCoseFormat
  else match enterContainer elts with
    | none => .error .attestationNitroCoseFormat
    | some uheaderMap =>
      if atEnd uheaderMap = false then .error .attestationNitroCoseFormat
      else match leaveContainer elts uheaderMap with
        | none => .error .attestationNitroCoseFormat
        | some elts => .ok elts

end Source

structure CoseSign1 where
  protectedHeader : Bytes
  payload : Bytes
  signature : Bytes
deriving DecidableEq

namespace CoseSign1

variable (V : Type) [Tinycbor V]

/-- The body of `Valid`, up to what `ASSIGN_OR_RETURN` returns: an error from within it. -/
def validBody (d : CoseSign1) : Except Error Bool :=
  match (parserInit d.protectedHeader : Option V) with
  | none => .ok false
  | some pheader =>
    if getType pheader ≠ .map then .ok false
    else match enterContainer pheader with
      | none => .ok false
      | some pheaderMap => do
        let (key, pheaderMap) ← cborInt pheaderMap
        let (val, pheaderMap) ← cborInt pheaderMap
        if atEnd pheaderMap = false then return false
        else if key ≠ 1 ∨ val ≠ -35 then return false
        else match leaveContainer pheader pheaderMap with
          | none => return false
          | some _ =>
            -- the source looks at the map again, and not at what comes after it
            if atEnd pheaderMap = false then return false
            else return decide (0 < d.payload.length ∧ d.signature.length = 96)

/-- `Valid`.  It returns a `bool`, to which an error is converted: all but `OK` are true. -/
def valid (d : CoseSign1) : Bool :=
  match d.validBody V with
  | .ok b => b
  | .error err => err ≠ .ok

def parseFromBytes (input : Bytes) : Except Error CoseSign1 :=
  match (parserInit input : Option V) with
  | none => .error .attestationNitroCborError
  | some array =>
    if getType array ≠ .array ∨ getArrayLength array ≠ some 4 then .error .attestationNitroCoseFormat
    else match enterContainer array with
      | none => .error .attestationNitroCoseFormat
      | some elts => do
        let (protectedHeader, elts) ← cborByteString elts
        let elts ← skipUnprotectedHeader elts
        let (payload, elts) ← cborByteString elts
        let (signature, elts) ← cborByteString elts
        if atEnd elts = false then .error .attestationNitroCborError
        else
          let d : CoseSign1 := ⟨protectedHeader, payload, signature⟩
          if d.valid V = false then .error .attestationNitroCoseFormat else .ok d

section Lawful

open LawfulTinycbor

variable {V} [LawfulTinycbor V] {v v₀ v₁ : V} {s : Bytes} {left : Option Nat}

end Lawful

/-! ### Samples -/

/-- `ParseFromBytes` accepts the input, whatever library with these properties it uses. -/
def Accepted (input : Bytes) (d : CoseSign1) : Prop :=
  ∀ (V : Type) [Tinycbor V] [LawfulTinycbor V], parseFromBytes V input = .ok d

end CoseSign1

end SVR2.Nitro
