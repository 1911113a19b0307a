import Syq.Sched.Conservation
import Syq.Sched.Names
import Syq.Restricted.GrantLimits
import Syq.Restricted.Recorded
import Syq.Results.Completeness
import Syq.Results.Held
import Syq.Mapping.Order
import Syq.Selection.Known
import Syq.Selection.Literals
import Syq.WireBudget.Exact
import Syq.Delegation.AtMostOnce
import Syq.Pruning.Run
import Syq.Pruning.Sources
import Syq.Vouch.InPlace
import Syq.Bwlimit.Paced
import Syq.Records.Authentic
import Syq.Records.RoundTrip
import Syq.Records.Nonces
import Syq.Broker.Login
import Syq.S3.Spared
import Syq.S3.Claims
import Syq.S3.Overlap
import Syq.Transfer.WorkBudget
