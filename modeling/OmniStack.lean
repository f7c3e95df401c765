import OmniStack.Acceptance
import OmniStack.Addresses
import OmniStack.Boot
import OmniStack.Channel
import OmniStack.Cidr
import OmniStack.ConfigStore
import OmniStack.Conservation
import OmniStack.Dotted
import OmniStack.Engine.Arrival
import OmniStack.Engine.Branches
import OmniStack.Engine.Drain.Accounting
import OmniStack.Engine.Drain.Termination
import OmniStack.Engine.Endings
import OmniStack.Engine.Leaks
import OmniStack.Engine.Tasks
import OmniStack.Loading
import OmniStack.Memory.Caches
import OmniStack.Modules.Reception
import OmniStack.Modules.Refills
import OmniStack.NicIndex
import OmniStack.Ports.Queues
import OmniStack.Recycled
import OmniStack.Release
import OmniStack.Rounds
import OmniStack.Service.Exclusive
import OmniStack.Service.Framing
import OmniStack.Service.Retries
import OmniStack.Service.Survival
import OmniStack.Shutdown
