import LteModemKernel.Apanic.ReadBack
import LteModemKernel.Ashmem.NoMemory
import LteModemKernel.BpLog.Stream
import LteModemKernel.Buddy.Accounting
import LteModemKernel.Classifier.Atomicity
import LteModemKernel.Classifier.BearerMap
import LteModemKernel.Classifier.Classify
import LteModemKernel.Classifier.TftParser
import LteModemKernel.DataDriver.Lookup
import LteModemKernel.DataDriver.Receive
import LteModemKernel.DataDriver.Stall
import LteModemKernel.Ghif.Downlink
import LteModemKernel.IpFragment.Rejected
import LteModemKernel.LinkDriver.Downlink
import LteModemKernel.LinkDriver.Stall
import LteModemKernel.Logger.Writers
import LteModemKernel.NetMux.Commands
import LteModemKernel.NetMux.Conservation
import LteModemKernel.NetMux.Delivery
import LteModemKernel.NetMux.ModemFlags
import LteModemKernel.NetMux.ReceiveWakelock
import LteModemKernel.NetMux.RefCount
import LteModemKernel.NetMux.SendScan
import LteModemKernel.Pmem.Allocator
import LteModemKernel.Resource.Integrity
import LteModemKernel.Ts27010.CheckSequence
import LteModemKernel.Ts27010.Delivery
import LteModemKernel.Ts27010.Handlers
import LteModemKernel.Ts27010.OpenOutcome
import LteModemKernel.VrShortmsg.PanicTimer
import LteModemKernel.WakeLock.Suspend
