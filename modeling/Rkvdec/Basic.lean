/-! Status codes the modelled driver functions return. -/
namespace Rkvdec

inductive NtStatus where
  | success
  | timeout
  | invalidParameter
  | invalidHandle
  | insufficientResources
  | deviceBusy
  | deviceNotReady
  | deviceRemoved
  | ioTimeout
  | ioDeviceError
  | notFound
  | pending
  | deviceHardwareError
  | quotaExceeded
deriving DecidableEq, Repr

/-! The tables of the driver and of the engines have slots: 0 is one of them. -/

instance neZero_two : @NeZero Nat Zero.ofOfNat0 2 := ⟨by decide⟩
instance neZero_four : @NeZero Nat Zero.ofOfNat0 4 := ⟨by decide⟩
instance neZero_seven : @NeZero Nat Zero.ofOfNat0 7 := ⟨by decide⟩
instance neZero_eight : @NeZero Nat Zero.ofOfNat0 8 := ⟨by decide⟩
instance neZero_twelve : @NeZero Nat Zero.ofOfNat0 12 := ⟨by decide⟩
instance neZero_sixteen : @NeZero Nat Zero.ofOfNat0 16 := ⟨by decide⟩

end Rkvdec
