import Cybera.Redemption
import Cybera.Replacement
import Cybera.Metering
import Cybera.Passwords
import Cybera.Cooldown
import Cybera.Cutoff
import Cybera.Redirects
import Cybera.Pending
import Cybera.DeviceLimit
import Cybera.Delivery
import Cybera.Drift
import Cybera.Recovery
import Cybera.OneWay
import Cybera.Contexts
import Cybera.FasFields
import Cybera.Retirement
import Cybera.Residue
import Cybera.SideEffects
import Cybera.PerUser
import Cybera.Books
import Cybera.Portal
import Cybera.LockedRows
import Cybera.Timeouts
import Cybera.Migrate
import Cybera.Generation
import Cybera.Authority
import Cybera.Devices
import Cybera.Apart
import Cybera.Cafe
import Cybera.Capture
import Cybera.Trail
import Cybera.Explanations
import Cybera.Batches
import Cybera.Standstill
