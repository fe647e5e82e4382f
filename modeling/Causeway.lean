import Causeway.Proof.Selection
import Causeway.Proof.SiteInstalls
import Causeway.Proof.RoundTrip
import Causeway.Proof.Updates
import Causeway.Proof.Snapshots
import Causeway.Proof.Recovery
import Causeway.Proof.Ranking
import Causeway.Proof.Wire
import Causeway.Proof.Roles
import Causeway.Proof.Traffic
import Causeway.Proof.Lanes
import Causeway.Proof.Locks
import Causeway.Proof.Scripts
import Causeway.Proof.Tally
import Causeway.Proof.Startup
import Causeway.Proof.Egress
import Causeway.Proof.Targets
import Causeway.Proof.UrlFile
import Causeway.Proof.Rounds
import Causeway.Proof.Trails
import Causeway.Proof.Backoff
import Causeway.Proof.Connect
import Causeway.Proof.Manifest
import Causeway.Proof.Plugin
import Causeway.Proof.Fetcher
import Causeway.Proof.DirectHosts
import Causeway.Proof.Cleanup
import Causeway.Proof.Listeners
import Causeway.Proof.Throttle
import Causeway.Proof.Listing
import Causeway.Proof.Averages
import Causeway.Proof.Draining
import Causeway.Proof.Commitment
import Causeway.Proof.Tracking
import Causeway.Proof.LostReply
import Causeway.Proof.Takeover
import Causeway.Proof.Sightings
