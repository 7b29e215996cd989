import DmfOs.Core.Align

/-!
# Fields of the control structure

The members of `enum Encoding` that the hypervisor uses. Bits 11:10 of an
encoding say which area a field belongs to; a VM exit writes the guest-state
area and the read-only area with the information about the exit.
-/

namespace DmfOs

/-- A field of the VMCS. -/
inductive Encoding where
  | pinControls | cpuExecCtrl0 | excBitmap | pfErrorMask | pfErrorMatch | cr3TargetCount
  | exiControls | entControls | entInstLen | cpuExecCtrl1 | vmxInstError | exiReason
  | exiIntrInfo | exiInstLen | exiQualification | guestPhysicalAddress | vmcsLinkPtr
  | vmcsLinkPtrHi | guestSelEs | guestSelCs | guestSelSs | guestSelDs | guestSelFs | guestSelGs
  | guestSelLdtr | guestSelTr | guestLimitEs | guestLimitCs | guestLimitSs | guestLimitDs
  | guestLimitFs | guestLimitGs | guestLimitLdtr | guestLimitTr | guestLimitGdtr | guestLimitIdtr
  | guestArEs | guestArCs | guestArSs | guestArDs | guestArFs | guestArGs | guestArLdtr
  | guestArTr | guestIntrState | guestActvState | guestSysenterCs | guestCr0 | guestCr3
  | guestCr4 | guestBaseEs | guestBaseCs | guestBaseSs | guestBaseDs | guestBaseFs | guestBaseGs
  | guestBaseLdtr | guestBaseTr | guestBaseGdtr | guestBaseIdtr | guestDr7 | guestRsp | guestRip
  | guestRflags | guestSysenterEsp | guestSysenterEip | hostSelEs | hostSelCs | hostSelSs
  | hostSelDs | hostSelFs | hostSelGs | hostSelTr | hostSysenterCs | hostCr0 | hostCr3 | hostCr4
  | hostBaseFs | hostBaseGs | hostBaseTr | hostBaseGdtr | hostBaseIdtr | hostSysenterEip
  | hostRsp | hostRip
  deriving DecidableEq, Repr

namespace Encoding

/-- The encoding that VMREAD and VMWRITE take. -/
def code : Encoding → Word
  | pinControls => 0x4000
  | cpuExecCtrl0 => 0x4002
  | excBitmap => 0x4004
  | pfErrorMask => 0x4006
  | pfErrorMatch => 0x4008
  | cr3TargetCount => 0x400a
  | exiControls => 0x400c
  | entControls => 0x4012
  | entInstLen => 0x401a
  | cpuExecCtrl1 => 0x401e
  | vmxInstError => 0x4400
  | exiReason => 0x4402
  | exiIntrInfo => 0x4404
  | exiInstLen => 0x440c
  | exiQualification => 0x6400
  | guestPhysicalAddress => 0x6402
  | vmcsLinkPtr => 0x2800
  | vmcsLinkPtrHi => 0x2801
  | guestSelEs => 0x0800
  | guestSelCs => 0x0802
  | guestSelSs => 0x0804
  | guestSelDs => 0x0806
  | guestSelFs => 0x0808
  | guestSelGs => 0x080a
  | guestSelLdtr => 0x080c
  | guestSelTr => 0x080e
  | guestLimitEs => 0x4800
  | guestLimitCs => 0x4802
  | guestLimitSs => 0x4804
  | guestLimitDs => 0x4806
  | guestLimitFs => 0x4808
  | guestLimitGs => 0x480a
  | guestLimitLdtr => 0x480c
  | guestLimitTr => 0x480e
  | guestLimitGdtr => 0x4810
  | guestLimitIdtr => 0x4812
  | guestArEs => 0x4814
  | guestArCs => 0x4816
  | guestArSs => 0x4818
  | guestArDs => 0x481a
  | guestArFs => 0x481c
  | guestArGs => 0x481e
  | guestArLdtr => 0x4820
  | guestArTr => 0x4822
  | guestIntrState => 0x4824
  | guestActvState => 0x4826
  | guestSysenterCs => 0x482a
  | guestCr0 => 0x6800
  | guestCr3 => 0x6802
  | guestCr4 => 0x6804
  | guestBaseEs => 0x6806
  | guestBaseCs => 0x6808
  | guestBaseSs => 0x680a
  | guestBaseDs => 0x680c
  | guestBaseFs => 0x680e
  | guestBaseGs => 0x6810
  | guestBaseLdtr => 0x6812
  | guestBaseTr => 0x6814
  | guestBaseGdtr => 0x6816
  | guestBaseIdtr => 0x6818
  | guestDr7 => 0x681a
  | guestRsp => 0x681c
  | guestRip => 0x681e
  | guestRflags => 0x6820
  | guestSysenterEsp => 0x6824
  | guestSysenterEip => 0x6826
  | hostSelEs => 0x0c00
  | hostSelCs => 0x0c02
  | hostSelSs => 0x0c04
  | hostSelDs => 0x0c06
  | hostSelFs => 0x0c08
  | hostSelGs => 0x0c0a
  | hostSelTr => 0x0c0c
  | hostSysenterCs => 0x4c00
  | hostCr0 => 0x6c00
  | hostCr3 => 0x6c02
  | hostCr4 => 0x6c04
  | hostBaseFs => 0x6c06
  | hostBaseGs => 0x6c08
  | hostBaseTr => 0x6c0a
  | hostBaseGdtr => 0x6c0c
  | hostBaseIdtr => 0x6c0e
  | hostSysenterEip => 0x6c12
  | hostRsp => 0x6c14
  | hostRip => 0x6c16

/-- The area of a field: 0 for controls, 1 for exit information, 2 for guest state, 3
for host state. -/
def area (e : Encoding) : Word := (e.code >>> 10) &&& 3

/-- A field that a VM exit may write. -/
def WrittenByExit (e : Encoding) : Prop := e.area = 1 ∨ e.area = 2

instance (e : Encoding) : Decidable e.WrittenByExit := inferInstanceAs (Decidable (_ ∨ _))

end Encoding

end DmfOs
