import Dynarec.Bridge.Flat
import Dynarec.Main
import Dynarec.Proofs.Assembly.Links
import Dynarec.Proofs.Assembly.ReadBack
import Dynarec.Proofs.Codegen.Dispatch
import Dynarec.Proofs.Codegen.LongImages
import Dynarec.Proofs.Codegen.OwnBytes
import Dynarec.Proofs.Codegen.Shape
import Dynarec.Proofs.Codegen.Views
import Dynarec.Proofs.Guest.Segments
import Dynarec.Proofs.Vm.BlockSize
import Dynarec.Proofs.Vm.CacheHistory
import Dynarec.Proofs.Vm.Canonical
import Dynarec.Proofs.Vm.Coherence
import Dynarec.Proofs.Vm.Confinement
import Dynarec.Proofs.Vm.CycleAccounting
import Dynarec.Proofs.Vm.DeviceSpace
import Dynarec.Proofs.Vm.HostFlags
import Dynarec.Proofs.Vm.Invalidation
import Dynarec.Proofs.Vm.LastInFirstOut
import Dynarec.Proofs.Vm.MultiByte
import Dynarec.Proofs.Vm.Relocation
import Dynarec.Proofs.Vm.Residue
import Dynarec.Proofs.Vm.Trampoline
import Dynarec.Proofs.Vm.WordHandlers
