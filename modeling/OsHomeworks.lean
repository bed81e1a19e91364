import OsHomeworks.Vm.Basic
import OsHomeworks.Vm.Ops
import OsHomeworks.Vm.Run
import OsHomeworks.Vm.Switch
import OsHomeworks.Vm.Fault
import OsHomeworks.Vm.Alloc
import OsHomeworks.Vm.Fork
import OsHomeworks.Vm.Counts
import OsHomeworks.Vm.Cow
import OsHomeworks.Vm.Entries
import OsHomeworks.Vm.Contracts
import OsHomeworks.Locks.Mutex
import OsHomeworks.Locks.Machine
import OsHomeworks.Locks.MutexInv
import OsHomeworks.Locks.Holding
import OsHomeworks.Locks.RingBuffer
import OsHomeworks.Locks.Spin
import OsHomeworks.Locks.SpinSim
import OsHomeworks.Shell.Run
import OsHomeworks.Shell.For
import OsHomeworks.Shell.Main
