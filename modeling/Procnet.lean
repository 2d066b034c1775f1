import Procnet.Core.Accounting
import Procnet.Core.Layout
import Procnet.Core.Wire
import Procnet.Daemon.App
import Procnet.Daemon.StatsMap
import Procnet.Bpf.Exit
import Procnet.System.Visible
import Procnet.System.Dead
import Procnet.System.Reuse
import Procnet.Daemon.Control
import Procnet.Bpf.Races
import Procnet.Bpf.Probes
import Procnet.Daemon.Hangup
import Procnet.Daemon.Listener
import Procnet.Tui.Lock
import Procnet.Tui.Endpoint
import Procnet.System.Clients
import Procnet.Daemon.Capacity
import Procnet.System.Host
import Procnet.System.Totals
import Procnet.Tui.Manual
import Procnet.Tui.Follow
import Procnet.Core.Lifetimes
import Procnet.Bpf.Traffic
import Procnet.System.Title
