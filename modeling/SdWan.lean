import SdWan.RoundRobinBalance
import SdWan.IdleApplication
import SdWan.StaticBound
import SdWan.Accounting
import SdWan.Transfer
import SdWan.Traffic
import SdWan.OfferedLoad
import SdWan.WaitingTime
import SdWan.PacketRates
import SdWan.MaskEnumeration
import SdWan.PacketCost
import SdWan.Termination
import SdWan.EndToEnd
import SdWan.Timing
import SdWan.Comparison
import SdWan.SinGenerator
import SdWan.Schedulable
import SdWan.Campaign
import SdWan.RoundRobinShares
import SdWan.SimulationReport
import SdWan.Reassembly
